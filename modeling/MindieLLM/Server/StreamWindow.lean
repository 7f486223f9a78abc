import MindieLLM.Server.StreamRuns
import Mathlib.Data.List.Infix

/-!
# The window of a stream with stop words

A cut may begin in an earlier round, which has to be held back until then. Each sequence lets the
rounds go that have the text of a window behind them, and when it has ended all that its cut leaves
something of. A round goes out, with the texts of all sequences, as soon as one of them lets it go
and all rounds before it.

So a cut is made as it should be if it begins in the response itself, or in a round from one on that
no sequence lets go.

## Main definitions

* `Ended`, `LetsGo`: a sequence lets a round go
* `WithinWindow`: the cuts of a response begin in rounds that are held back
* `Held`: which rounds are in the cache

## Main results

* `Held.withinKept`: what such a cut takes off has not gone out
* `Held.step`: a response keeps the rounds that no sequence lets go
* `withinWindow_of_alone`: for one sequence it is enough that the window is as long as what a cut
  takes off the earlier rounds
* `released_eq_cut`: what goes out is the text up to the cut
* `not_released_eq_cut`: a second sequence lets text go out that is to be cut off
-/

namespace MindieLLM.StreamCache

open Program

variable {Rest : Type} {windowSize seqId : ℕ} {item : BestNTokens Rest}
  {decodeResult round : List (BestNTokens Rest)} {done held later : List (List (BestNTokens Rest))}
  {c : SequenceState Rest} {out : List (Cache Rest)} {i : InferInterface Rest}

/-! ## Rounds that are held back -/

/-- The sequence has a finish reason. -/
def Ended (seqId : ℕ) (done : List (List (BestNTokens Rest))) : Prop :=
  ∃ item ∈ (itemsOf seqId done).getLast?, item.finishReason ≠ .iterationContinue

instance (seqId : ℕ) (done : List (List (BestNTokens Rest))) : Decidable (Ended seqId done) :=
  inferInstanceAs (Decidable (∃ item ∈ (itemsOf seqId done).getLast?, _))

/-- The sequence lets the first of the rounds go, behind which the others have come. -/
def LetsGo (windowSize : ℕ) (done : List (List (BestNTokens Rest))) (seqId : ℕ) :
    List (List (BestNTokens Rest)) → Prop
  | [] => False
  | round :: later =>
    if Ended seqId done then cutLength seqId done ≤ utf16Len (wholeText seqId (round :: later))
    else windowSize ≤ utf16Len (wholeText seqId later)

instance (windowSize : ℕ) (done : List (List (BestNTokens Rest))) (seqId : ℕ)
    (rounds : List (List (BestNTokens Rest))) : Decidable (LetsGo windowSize done seqId rounds) :=
  match rounds with
  | [] => inferInstanceAs (Decidable False)
  | round :: later =>
    inferInstanceAs (Decidable (if Ended seqId done then
      cutLength seqId done ≤ utf16Len (wholeText seqId (round :: later))
    else windowSize ≤ utf16Len (wholeText seqId later)))

/-- No sequence lets the first of the rounds go. -/
def NoneLetsGo (windowSize : ℕ) (done rounds : List (List (BestNTokens Rest))) : Prop :=
  ∀ other ∈ done.flatten, ¬LetsGo windowSize done other.seqId rounds

instance (windowSize : ℕ) (done rounds : List (List (BestNTokens Rest))) :
    Decidable (NoneLetsGo windowSize done rounds) :=
  inferInstanceAs (Decidable (∀ other ∈ done.flatten, _))

/-- Each cut is between characters, and begins in the response or in the last rounds, of which no
sequence lets the first go. -/
def WithinWindow (windowSize : ℕ) (done : List (List (BestNTokens Rest)))
    (decodeResult : List (BestNTokens Rest)) : Prop :=
  ∀ item ∈ decodeResult,
    (∃ held ∈ done.tails, NoneLetsGo windowSize done held ∧
      item.cutLength ≤ utf16Len (wholeText item.seqId held ++ item.text)) ∧
    (cutUnits (utf16Len (wholeText item.seqId done ++ item.text) - item.cutLength)
      (wholeText item.seqId done ++ item.text)).isSome

instance (windowSize : ℕ) (done : List (List (BestNTokens Rest)))
    (decodeResult : List (BestNTokens Rest)) :
    Decidable (WithinWindow windowSize done decodeResult) :=
  inferInstanceAs (Decidable (∀ item ∈ decodeResult, _))

/-- The responses after those that are done are all within the window. -/
def AllWithinWindow (windowSize : ℕ) (done : List (List (BestNTokens Rest))) :
    List (List (BestNTokens Rest)) → Prop
  | [] => True
  | decodeResult :: later => WithinWindow windowSize done decodeResult ∧
      AllWithinWindow windowSize (done ++ [decodeResult]) later

/-! ## Texts -/

theorem itemsOf_append (seqId : ℕ) (done later : List (List (BestNTokens Rest))) :
    itemsOf seqId (done ++ later) = itemsOf seqId done ++ itemsOf seqId later := by
  rw [itemsOf, List.flatten_append, List.filter_append]
  rfl

theorem wholeText_append (seqId : ℕ) (done later : List (List (BestNTokens Rest))) :
    wholeText seqId (done ++ later) = wholeText seqId done ++ wholeText seqId later := by
  rw [wholeText, itemsOf_append, List.flatMap_append]
  rfl

theorem wholeText_singleton_of_mem (hnodup : (decodeResult.map BestNTokens.seqId).Nodup)
    (h : item ∈ decodeResult) : wholeText item.seqId [decodeResult] = item.text := by
  have htext : wholeText item.seqId ([] ++ [decodeResult]) = wholeText item.seqId [] ++ item.text :=
    wholeText_concat_of_mem hnodup h
  exact htext

theorem utf16Len_wholeText_le_of_suffix (h : later <:+ held) :
    utf16Len (wholeText seqId later) ≤ utf16Len (wholeText seqId held) := by
  obtain ⟨front, rfl⟩ := h
  rw [wholeText_append, utf16Len_append]
  exact Nat.le_add_left _ _

theorem texts_reverse (rows : View Rest) : texts rows.reverse = (rows.map rowText).flatten := by
  induction rows with
  | nil => rfl
  | cons row rows ih =>
    rw [List.reverse_cons, texts_append, ih]
    rfl

theorem flatten_map_wholeText (seqId : ℕ) (rounds : List (List (BestNTokens Rest))) :
    (rounds.map fun round => wholeText seqId [round]).flatten = wholeText seqId rounds := by
  induction rounds with
  | nil => rfl
  | cons round rounds ih =>
    rw [List.map_cons, List.flatten_cons, ih, ← wholeText_append]
    rfl

/-! ## Sequences that let go keep on letting go -/

theorem ended_concat_of_notMem (h : seqId ∉ decodeResult.map BestNTokens.seqId) :
    Ended seqId (done ++ [decodeResult]) ↔ Ended seqId done := by
  rw [Ended, Ended, itemsOf_concat_of_notMem h]

theorem letsGo_concat_of_notMem (h : seqId ∉ decodeResult.map BestNTokens.seqId)
    (hletsGo : LetsGo windowSize done seqId held) :
    LetsGo windowSize (done ++ [decodeResult]) seqId (held ++ [decodeResult]) := by
  cases held with
  | nil => exact hletsGo.elim
  | cons round later =>
    have htext (rounds : List (List (BestNTokens Rest))) :
        wholeText seqId (rounds ++ [decodeResult]) = wholeText seqId rounds := by
      rw [wholeText, itemsOf_concat_of_notMem h]
      rfl
    have hcut : cutLength seqId (done ++ [decodeResult]) = cutLength seqId done := by
      rw [cutLength, itemsOf_concat_of_notMem h]
      rfl
    rw [List.cons_append, LetsGo, ← List.cons_append, htext, htext, hcut]
    simp only [ended_concat_of_notMem h]
    exact hletsGo

/-- The cut of a sequence does not take all of a round that it has let go before. -/
theorem letsGo_concat_of_mem (hnodup : (decodeResult.map BestNTokens.seqId).Nodup)
    (hwindow : WithinWindow windowSize done decodeResult) (hitem : item ∈ decodeResult)
    (hlive : ¬Ended item.seqId done) (hheld : held <:+ done)
    (hknown : ∃ other ∈ done.flatten, other.seqId = item.seqId)
    (hletsGo : LetsGo windowSize done item.seqId held) :
    LetsGo windowSize (done ++ [decodeResult]) item.seqId (held ++ [decodeResult]) := by
  cases held with
  | nil => exact hletsGo.elim
  | cons round later =>
    rw [LetsGo, if_neg hlive] at hletsGo
    rw [List.cons_append, LetsGo]
    split
    · rw [cutLength_concat_of_mem hnodup hitem, ← List.cons_append, wholeText_append,
        wholeText_singleton_of_mem hnodup hitem]
      obtain ⟨⟨cut, hcut, hnone, hle⟩, -⟩ := hwindow item hitem
      rw [List.mem_tails] at hcut
      refine Nat.le_trans hle ?_
      rw [utf16Len_append, utf16Len_append]
      refine Nat.add_le_add_right ?_ _
      cases cut with
      | nil => exact Nat.zero_le _
      | cons round' later' =>
        obtain ⟨other, hother, hseqId⟩ := hknown
        have hshort := hnone other hother
        rw [hseqId, LetsGo, if_neg hlive] at hshort
        -- the cut begins behind the round that has been let go
        have hlt : later'.length < later.length := by
          by_contra hge
          have hsuffix := List.suffix_of_suffix_length_le ((List.suffix_cons _ _).trans hheld)
            ((List.suffix_cons _ _).trans hcut) (Nat.not_lt.mp hge)
          exact hshort (Nat.le_trans hletsGo (utf16Len_wholeText_le_of_suffix hsuffix))
        refine utf16Len_wholeText_le_of_suffix (List.suffix_of_suffix_length_le hcut hheld ?_)
        rw [List.length_cons, List.length_cons]
        omega
    · rw [wholeText_append, utf16Len_append]
      exact Nat.le_trans hletsGo (Nat.le_add_right _ _)

/-- A sequence that a response has was live before. -/
theorem Inv.not_ended (hinv : Inv windowSize done out i) (h : Fits decodeResult i)
    (hitem : item ∈ decodeResult) : ¬Ended item.seqId done := by
  rintro ⟨last, hlast, hended⟩
  rcases h.known with rfl | hknown
  · rw [hinv.known item.seqId List.not_mem_nil] at hlast
    cases hlast
  · obtain ⟨c, hc, heq⟩ := List.mem_map.mp (hknown item hitem)
    obtain ⟨last', hlast', hfrom⟩ := hinv.last c hc
    rw [heq, Option.mem_def.mp hlast, Option.some_inj] at hlast'
    exact hended (hlast' ▸ hfrom.eos ▸ (h.live c hc).mp (heq ▸ List.mem_map_of_mem hitem))

/-- A round that no sequence lets go has not been let go before. -/
theorem Inv.noneLetsGo_of_concat (hinv : Inv windowSize done out i) (h : Fits decodeResult i)
    (hwindow : WithinWindow windowSize done decodeResult) (hheld : held <:+ done)
    (hnone : NoneLetsGo windowSize (done ++ [decodeResult]) (held ++ [decodeResult])) :
    NoneLetsGo windowSize done held := by
  intro other hother hletsGo
  refine hnone other ?_ ?_
  · rw [List.flatten_append]
    exact List.mem_append_left _ hother
  · by_cases hmem : other.seqId ∈ decodeResult.map BestNTokens.seqId
    · obtain ⟨item, hitem, heq⟩ := List.mem_map.mp hmem
      rw [← heq] at hletsGo ⊢
      exact letsGo_concat_of_mem h.nodup hwindow hitem (hinv.not_ended h hitem) hheld
        ⟨other, hother, heq.symm⟩ hletsGo
    · exact letsGo_concat_of_notMem hmem hletsGo

/-! ## The rounds in the cache -/

/-- The cache has the last rounds, with the texts of all sequences: at least those from one on that
no sequence lets go. -/
structure Held (windowSize : ℕ) (done : List (List (BestNTokens Rest))) (i : InferInterface Rest) :
    Prop where
  rounds : ∃ past rounds, done = past ++ rounds ∧ ∀ seqId,
    (view seqId i.streamCache).map rowText = rounds.map fun round => wholeText seqId [round]
  kept : ∀ held, held <:+ done → NoneLetsGo windowSize done held →
    held.length ≤ i.streamCache.length
  sequences : ∀ cache ∈ i.streamCache, seqIds cache = i.sequences.map SequenceState.seqId

theorem Held.new : Held windowSize ([] : List (List (BestNTokens Rest))) .new where
  rounds := ⟨[], [], rfl, fun _ => rfl⟩
  kept _ hheld _ := hheld.length_le
  sequences _ hcache := absurd hcache List.not_mem_nil

/-- What is cut off has not gone out. -/
theorem Held.withinKept (h : Held windowSize done i)
    (hwindow : WithinWindow windowSize done decodeResult) : WithinKept decodeResult i := by
  obtain ⟨past, rounds, rfl, htexts⟩ := h.rounds
  intro item hitem
  obtain ⟨⟨held, hheld, hnone, hle⟩, hcut⟩ := hwindow item hitem
  rw [List.mem_tails] at hheld
  have hkeptText : keptText item.seqId i = wholeText item.seqId rounds := by
    rw [keptText_eq_texts, texts_reverse, htexts, flatten_map_wholeText]
  have hlength : rounds.length = i.streamCache.length := by
    have hlengths := congrArg List.length (htexts 0)
    rw [List.length_map, List.length_map, view, List.length_map] at hlengths
    exact hlengths.symm
  have hsuffix : held <:+ rounds :=
    List.suffix_of_suffix_length_le hheld (List.suffix_append past rounds)
      (by rw [hlength]; exact h.kept held hheld hnone)
  have hcutLength : item.cutLength ≤ utf16Len (wholeText item.seqId rounds ++ item.text) := by
    have htext : utf16Len (wholeText item.seqId held) ≤ utf16Len (wholeText item.seqId rounds) :=
      utf16Len_wholeText_le_of_suffix hsuffix
    rw [utf16Len_append] at hle ⊢
    omega
  have hindex : utf16Len (wholeText item.seqId past ++
      (wholeText item.seqId rounds ++ item.text)) - item.cutLength =
      utf16Len (wholeText item.seqId past) +
        (utf16Len (wholeText item.seqId rounds ++ item.text) - item.cutLength) := by
    rw [utf16Len_append (wholeText item.seqId past)]
    omega
  rw [wholeText_append, List.append_assoc, hindex, cutUnits_append, Option.isSome_map] at hcut
  rw [hkeptText]
  exact ⟨hcutLength, hcut⟩

theorem Inv.ended_iff (hinv : Inv windowSize done out i) (hc : c ∈ i.sequences) :
    Ended c.seqId done ↔ c.eos ≠ .iterationContinue := by
  obtain ⟨item, hlast, hfrom⟩ := hinv.last c hc
  rw [Ended, hlast, hfrom.eos]
  simp

/-- The text of a sequence in the round of a response. -/
theorem Fits.rowText_eq (h : Fits decodeResult i) (hinv : Inv windowSize done out i) (seqId : ℕ) :
    rowText (row? seqId ((convertTokenToMap decodeResult i.sequences).map .ofSequence)) =
      wholeText seqId [decodeResult] := by
  have habsent (hseqId : seqId ∉ decodeResult.map BestNTokens.seqId) :
      wholeText seqId [decodeResult] = [] := by
    rw [wholeText, ← List.nil_append [decodeResult], itemsOf_concat_of_notMem hseqId]
    rfl
  by_cases hknown : seqId ∈ (convertTokenToMap decodeResult i.sequences).map SequenceState.seqId
  · obtain ⟨c, hc, rfl⟩ := List.mem_map.mp hknown
    rw [row?_map_ofSequence (h.nodup_convertTokenToMap hinv) hc]
    rcases StreamCache.mem_convertTokenToMap hc with
      ⟨item, hitem, hfrom, htext⟩ | ⟨hnotMem, hnil, -⟩
    · rw [hfrom.seqId, wholeText_singleton_of_mem h.nodup hitem]
      exact htext
    · rw [habsent hnotMem]
      exact hnil
  · rw [row?_map_ofSequence_eq_none hknown,
      habsent fun hmem => hknown (h.mem_convertTokenToMap.mpr (.inr hmem))]
    rfl

theorem row?_of_mem {cache : Cache Rest} {row : CacheRow Rest} (hnodup : (seqIds cache).Nodup)
    (h : row ∈ cache) : row? row.seqId cache = some row := by
  induction cache with
  | nil => exact absurd h List.not_mem_nil
  | cons first cache ih =>
    rw [seqIds, List.map_cons, List.nodup_cons] at hnodup
    rw [row?, List.find?_cons]
    rcases List.mem_cons.mp h with rfl | h
    · rw [decide_eq_true rfl]
    · have hne : first.seqId ≠ row.seqId := fun heq => hnodup.1 (heq ▸ List.mem_map_of_mem h)
      rw [decide_eq_false hne]
      exact ih hnodup.2 h

/-- A round that no sequence lets go is not ready. -/
theorem not_ready {cache : Cache Rest} {front newer : List (Cache Rest)}
    (hinv : Inv windowSize done out i)
    (hafter : ∀ c ∈ i.sequences,
      CutFrom (cutLength c.seqId done) 0 (view c.seqId (front ++ cache :: newer)).reverse ∧
      (c.eos = .iterationContinue →
        Waiting windowSize 0 (view c.seqId (front ++ cache :: newer)).reverse))
    (htexts : ∀ seqId, (view seqId (cache :: newer)).map rowText =
      (round :: later).map fun round => wholeText seqId [round])
    (hseqIds : seqIds cache = i.sequences.map SequenceState.seqId)
    (hnone : NoneLetsGo windowSize done (round :: later)) :
    hasOutputReadyOrFinished cache = false := by
  refine List.any_eq_false.mpr fun row hrow => ?_
  obtain ⟨c, hc, hseqId⟩ : ∃ c ∈ i.sequences, c.seqId = row.seqId := by
    have hmem : row.seqId ∈ seqIds cache := List.mem_map_of_mem hrow
    rw [hseqIds] at hmem
    exact List.mem_map.mp hmem
  have hrow? : row? c.seqId cache = some row := by
    rw [hseqId]
    exact row?_of_mem (hseqIds ▸ hinv.nodup) hrow
  have hview : (view c.seqId (front ++ cache :: newer)).reverse =
      (view c.seqId newer).reverse ++ some row :: (view c.seqId front).reverse := by
    rw [view_append, view_cons, hrow?, List.reverse_append, List.reverse_cons, List.append_assoc,
      List.singleton_append]
  have hrows := htexts c.seqId
  rw [view_cons, hrow?, List.map_cons, List.map_cons] at hrows
  obtain ⟨hrowText, hnewer⟩ := List.cons_eq_cons.mp hrows
  rw [rowText] at hrowText
  have hlater : utf16Len (texts (view c.seqId newer).reverse) =
      utf16Len (wholeText c.seqId later) := by
    rw [texts_reverse, hnewer, flatten_map_wholeText]
  have hround : utf16Len (wholeText c.seqId (round :: later)) =
      utf16Len row.u16TokenText + utf16Len (wholeText c.seqId later) := by
    rw [← List.singleton_append, wholeText_append, utf16Len_append, hrowText]
  obtain ⟨hcutFrom, hwaiting⟩ := hafter c hc
  rw [hview] at hcutFrom hwaiting
  obtain ⟨last, hlast, hfrom⟩ := hinv.last c hc
  have hmem := List.mem_filter.mp (List.mem_of_getLast? hlast)
  have hletsGo := hnone last hmem.1
  rw [of_decide_eq_true hmem.2, LetsGo, hround] at hletsGo
  by_cases heos : c.eos = .iterationContinue
  · rw [if_neg (mt (hinv.ended_iff hc).mp (not_not.mpr heos))] at hletsGo
    obtain ⟨⟨hcontinue, hsome, hready⟩, -⟩ := (hwaiting heos).of_append.2
    rw [hlater] at hready
    obtain ⟨canOut, hcan⟩ := Option.isSome_iff_exists.mp hsome
    cases canOut with
    | false => simp [hcan, hcontinue]
    | true => exact absurd (hready hcan) (by omega)
  · rw [if_pos ((hinv.ended_iff hc).mpr heos)] at hletsGo
    obtain ⟨-, hcutRow, -⟩ := (cutFrom_append _).mp hcutFrom
    rw [hlater] at hcutRow
    simp [hcutRow.erased (by omega)]

theorem map_rowText_of_tokenTexts {rows rows' : View Rest}
    (h : tokenTexts rows.reverse = tokenTexts rows'.reverse) :
    rows.map rowText = rows'.map rowText := by
  have htext (rows : View Rest) :
      rows.map rowText = (tokenTexts rows.reverse).reverse.map (Option.getD · []) := by
    rw [tokenTexts, ← List.map_reverse, List.reverse_reverse, List.map_map]
    refine List.map_congr_left fun row _ => ?_
    cases row <;> rfl
  rw [htext, h, ← htext]

/-- What stands before the end of a list that is longer than the rest. -/
theorem mem_of_append_eq {α : Type} {popped kept front newer : List α} {a : α}
    (h : popped ++ kept = front ++ a :: newer) (hle : kept.length ≤ newer.length) :
    a ∈ popped := by
  rcases List.append_eq_append_iff.mp h with ⟨rest, rfl, hkept⟩ | ⟨rest, rfl, hrest⟩
  · rw [hkept, List.length_append, List.length_cons] at hle
    omega
  · cases rest with
    | nil =>
      have hlength := congrArg List.length hrest
      rw [List.nil_append, List.length_cons] at hlength
      omega
    | cons b rest =>
      obtain ⟨rfl, -⟩ := List.cons_eq_cons.mp hrest
      exact List.mem_append_right _ List.mem_cons_self

/-- A round that no sequence lets go stays in the cache. -/
theorem length_le_of_noneLetsGo {popped kept : List (Cache Rest)}
    {rounds : List (List (BestNTokens Rest))} (hinv : Inv windowSize done out i)
    (hready : ∀ cache ∈ popped, hasOutputReadyOrFinished cache = true)
    (hafter : ∀ c ∈ i.sequences,
      CutFrom (cutLength c.seqId done) 0 (view c.seqId (popped ++ kept)).reverse ∧
      (c.eos = .iterationContinue → Waiting windowSize 0 (view c.seqId (popped ++ kept)).reverse))
    (htexts : ∀ seqId, (view seqId (popped ++ kept)).map rowText =
      rounds.map fun round => wholeText seqId [round])
    (hids : ∀ cache ∈ popped ++ kept, seqIds cache = i.sequences.map SequenceState.seqId)
    (hsuffix : held <:+ rounds) (hnone : NoneLetsGo windowSize done held) :
    held.length ≤ kept.length := by
  obtain ⟨before, rfl⟩ := hsuffix
  cases held with
  | nil => exact Nat.zero_le _
  | cons round later =>
    by_contra hlt
    have hsplit := List.take_append_drop before.length (popped ++ kept)
    have hdrop (seqId : ℕ) :
        (view seqId ((popped ++ kept).drop before.length)).map rowText =
          (round :: later).map fun round => wholeText seqId [round] := by
      have hdropped := congrArg (List.drop before.length) (htexts seqId)
      rwa [List.map_append, List.drop_left' (List.length_map _), ← List.map_drop, view,
        ← List.map_drop] at hdropped
    have hlength := congrArg List.length (hdrop 0)
    simp only [view, List.length_map, List.length_cons] at hlength hlt
    cases hcache : (popped ++ kept).drop before.length with
    | nil =>
      rw [hcache] at hlength
      cases hlength
    | cons cache newer =>
      rw [hcache] at hsplit hdrop hlength
      have hfalse := not_ready hinv (by rwa [hsplit]) hdrop (hids cache (by
        rw [← hsplit]
        exact List.mem_append_right _ List.mem_cons_self)) hnone
      rw [List.length_cons] at hlength
      rw [hready cache (mem_of_append_eq hsplit.symm (by omega))] at hfalse
      cases hfalse

/-- **A response keeps the rounds that no sequence lets go.** -/
theorem Held.step (hheld : Held windowSize done i) (hinv : Inv windowSize done out i)
    (h : Fits decodeResult i) (hwindow : WithinWindow windowSize done decodeResult) :
    ∃ out' i', processResponseStream windowSize decodeResult i = some (out', i') ∧
      Inv windowSize (done ++ [decodeResult]) (out ++ out') i' ∧
      Held windowSize (done ++ [decodeResult]) i' := by
  have hkept := hheld.withinKept hwindow
  obtain ⟨popped, kept, hrun, hready, -, hseqIds, hafter⟩ := hinv.afterWindow h hkept
  obtain ⟨out', i', hstep, hinv'⟩ := hinv.step h hkept
  obtain ⟨rfl, rfl⟩ := Prod.mk.inj (Option.some.inj (hrun.symm.trans hstep))
  obtain ⟨past, rounds, hdone, htexts⟩ := hheld.rounds
  have hfull (seqId : ℕ) : (view seqId (popped ++ kept)).map rowText =
      (rounds ++ [decodeResult]).map fun round => wholeText seqId [round] := by
    rw [map_rowText_of_tokenTexts (hafter seqId).tokenTexts, pushLatestCache, view_append,
      List.map_append, htexts, List.map_append]
    exact congrArg (_ ++ [·]) (h.rowText_eq hinv seqId)
  have hids : ∀ cache ∈ popped ++ kept, seqIds cache =
      (convertTokenToMap decodeResult i.sequences).map SequenceState.seqId := by
    intro cache hcache
    have hmem := List.mem_map_of_mem (f := seqIds) hcache
    rw [hseqIds, pushLatestCache, List.map_append, List.mem_append] at hmem
    rcases hmem with hold | hnew
    · obtain ⟨cache', hcache', heq⟩ := List.mem_map.mp hold
      rw [← heq, hheld.sequences cache' hcache']
      rcases h.known with rfl | hknown
      · exact absurd hcache' List.not_mem_nil
      · exact (map_seqId_convertTokenToMap hknown fun c hc heos => (h.live c hc).mpr heos).symm
    · rw [List.mem_singleton.mp hnew, seqIds, List.map_map]
      rfl
  refine ⟨_, _, hstep, hinv', ⟨past ++ (rounds ++ [decodeResult]).take popped.length,
    (rounds ++ [decodeResult]).drop popped.length, ?_, fun seqId => ?_⟩,
    fun held hsuffix hnone => ?_,
    fun cache hcache => hids cache (List.mem_append_right _ hcache)⟩
  · rw [List.append_assoc, List.take_append_drop, hdone, List.append_assoc]
  · have hdrop := congrArg (List.drop popped.length) (hfull seqId)
    rwa [view_append, List.map_append, List.drop_left' (by simp [view]), ← List.map_drop] at hdrop
  · refine length_le_of_noneLetsGo hinv' hready
      (fun c hc => ⟨(hafter c.seqId).streamed.cutFrom, (hafter c.seqId).waiting c hc rfl⟩) hfull
      hids (List.suffix_of_suffix_length_le hsuffix
        (by rw [hdone, List.append_assoc]; exact List.suffix_append past _) ?_) hnone
    -- the rounds were in the cache before
    rw [List.length_append]
    rcases List.suffix_concat_iff.mp hsuffix with rfl | ⟨held, rfl, hold⟩
    · exact Nat.zero_le _
    · have hcache := hheld.kept held hold (hinv.noneLetsGo_of_concat h hwindow hold hnone)
      have hrounds := congrArg List.length (htexts 0)
      rw [view, List.length_map, List.length_map, List.length_map] at hrounds
      rw [List.length_append]
      omega

/-! ## One sequence -/

/-- The round in which the last units of a text begin. -/
theorem exists_round {k : ℕ} (hpos : 0 < k) (hle : k ≤ utf16Len (wholeText seqId done)) :
    ∃ round later, round :: later <:+ done ∧ utf16Len (wholeText seqId later) < k ∧
      k ≤ utf16Len (wholeText seqId (round :: later)) := by
  induction done with
  | nil => exact absurd hle (Nat.not_le.mpr hpos)
  | cons round done ih =>
    by_cases hshort : utf16Len (wholeText seqId done) < k
    · exact ⟨round, done, List.suffix_rfl, hshort, hle⟩
    · obtain ⟨first, later, hsuffix, hlt, hle⟩ := ih (Nat.not_lt.mp hshort)
      exact ⟨first, later, hsuffix.trans (List.suffix_cons _ _), hlt, hle⟩

/-- **Of one sequence** a window holds enough back that is as long as what a cut takes off the
earlier rounds. -/
theorem withinWindow_of_alone (halone : ∀ other ∈ done.flatten ++ decodeResult,
      other.seqId = seqId) (hlive : ¬Ended seqId done)
    (hcut : ∀ item ∈ decodeResult, item.cutLength ≤ windowSize + utf16Len item.text ∧
      item.cutLength ≤ utf16Len (wholeText seqId done ++ item.text) ∧
      (cutUnits (utf16Len (wholeText seqId done ++ item.text) - item.cutLength)
        (wholeText seqId done ++ item.text)).isSome) :
    WithinWindow windowSize done decodeResult := by
  intro item hitem
  obtain ⟨hwindow, hwhole, hsome⟩ := hcut item hitem
  rw [halone item (List.mem_append_right _ hitem)]
  refine ⟨?_, hsome⟩
  by_cases hown : item.cutLength ≤ utf16Len item.text
  · exact ⟨[], (List.mem_tails _ _).mpr List.nil_suffix, fun _ _ => id, hown⟩
  · rw [utf16Len_append] at hwhole
    have hover : 0 < item.cutLength - utf16Len item.text := by omega
    have hearlier : item.cutLength - utf16Len item.text ≤ utf16Len (wholeText seqId done) := by
      omega
    obtain ⟨round, later, hsuffix, hlt, hle⟩ := exists_round hover hearlier
    refine ⟨round :: later, (List.mem_tails _ _).mpr hsuffix, fun other hother => ?_, ?_⟩
    · rw [halone other (List.mem_append_left _ hother), LetsGo, if_neg hlive]
      omega
    · rw [utf16Len_append]
      omega

/-! ## The runs of a request -/

/-- `P` holds of each response and what is kept when it comes. -/
def Along (windowSize : ℕ) (P : List (BestNTokens Rest) → InferInterface Rest → Prop) :
    List (List (BestNTokens Rest)) → InferInterface Rest → Prop
  | [], _ => True
  | decodeResult :: later, i =>
    P decodeResult i ∧
      ∀ result ∈ processResponseStream windowSize decodeResult i, Along windowSize P later result.2

theorem Held.run (hheld : Held windowSize done i) (hinv : Inv windowSize done out i)
    {responses : List (List (BestNTokens Rest))} (hfits : Along windowSize Fits responses i)
    (hwindow : AllWithinWindow windowSize done responses) :
    ∃ out' i', run windowSize responses i = some (out', i') ∧
      Inv windowSize (done ++ responses) (out ++ out') i' ∧
      Held windowSize (done ++ responses) i' := by
  induction responses generalizing done out i with
  | nil =>
    rw [List.append_nil]
    exact ⟨[], i, rfl, by rwa [List.append_nil], hheld⟩
  | cons decodeResult later ih =>
    obtain ⟨out', i', hstep, hinv', hheld'⟩ := hheld.step hinv hfits.1 hwindow.1
    obtain ⟨out'', i'', hrun, hinv'', hheld''⟩ := ih hheld' hinv' (hfits.2 _ hstep) hwindow.2
    rw [List.append_assoc, List.singleton_append] at hinv'' hheld''
    refine ⟨out' ++ out'', i'', ?_, by rwa [← List.append_assoc], hheld''⟩
    rw [StreamCache.run, hstep, Option.bind_eq_bind, Option.bind_some]
    change (StreamCache.run windowSize later i').bind _ = _
    rw [hrun]
    rfl

/-- **What goes out for a sequence is its text up to the cut**, if the cuts are within the window:
at any time a beginning of it, and all of it when all sequences have ended. -/
theorem released_eq_cut {responses : List (List (BestNTokens Rest))}
    (hfits : Along windowSize Fits responses .new)
    (hwindow : AllWithinWindow windowSize [] responses) :
    ∃ out i, run windowSize responses .new = some (out, i) ∧ ∀ seqId,
      cutLength seqId responses ≤ utf16Len (wholeText seqId responses) ∧
      (∃ held, cutUnits (utf16Len (wholeText seqId responses) - cutLength seqId responses)
        (wholeText seqId responses) = some (released seqId out ++ held)) ∧
      ((∀ other item, (itemsOf other responses).getLast? = some item →
          item.finishReason ≠ .iterationContinue) →
        cutUnits (utf16Len (wholeText seqId responses) - cutLength seqId responses)
          (wholeText seqId responses) = some (released seqId out)) := by
  obtain ⟨out, i, hrun, hinv, -⟩ := Held.new.run Inv.new hfits hwindow
  rw [List.nil_append, List.nil_append] at hinv
  refine ⟨out, i, hrun, fun seqId => ⟨(hinv.streamed seqId).short, ⟨_, (hinv.streamed seqId).text⟩,
    fun hended => ?_⟩⟩
  have hheld : visible (view seqId i.streamCache).reverse = [] := by
    by_cases hknown : seqId ∈ i.sequences.map SequenceState.seqId
    · obtain ⟨c, hc, rfl⟩ := List.mem_map.mp hknown
      refine hinv.settled (fun c' hc' => ?_) c hc
      obtain ⟨item, hlast, hfrom⟩ := hinv.last c' hc'
      rw [hfrom.eos]
      exact hended c'.seqId item hlast
    · have htext := (hinv.streamed seqId).text
      rw [wholeText, hinv.known seqId hknown] at htext
      exact (List.append_eq_nil_iff.mp (Option.some.inj htext).symm).2
  have htext := (hinv.streamed seqId).text
  rwa [hheld, List.append_nil] at htext

/-- Both sequences end with the stop string `xy`, which begins a round before: the first in the
third response, the second in the fourth. -/
def twoCuts : List (List (BestNTokens Unit)) :=
  [[⟨0, ['a', 'b'], .iterationContinue, 0, [], ()⟩, ⟨1, ['c'], .iterationContinue, 0, [], ()⟩],
    [⟨0, ['x'], .iterationContinue, 0, [], ()⟩, ⟨1, ['d'], .iterationContinue, 0, [], ()⟩],
    [⟨0, ['y'], .endOfSentence, -2, [], ()⟩, ⟨1, ['x'], .iterationContinue, 0, [], ()⟩],
    [⟨1, ['y'], .endOfSentence, -2, [], ()⟩]]

theorem fits_twoCuts : Along 2 Fits twoCuts .new := by
  refine ⟨⟨by decide, .inl rfl, by decide, by decide⟩, ?_⟩
  intro result hresult
  obtain rfl := Option.some.inj (Option.mem_def.mp hresult)
  refine ⟨⟨by decide, .inr (by decide), by decide, by decide⟩, ?_⟩
  intro result hresult
  obtain rfl := Option.some.inj (Option.mem_def.mp hresult)
  refine ⟨⟨by decide, .inr (by decide), by decide, by decide⟩, ?_⟩
  intro result hresult
  obtain rfl := Option.some.inj (Option.mem_def.mp hresult)
  exact ⟨⟨by decide, .inr (by decide), by decide, by decide⟩, fun _ _ => trivial⟩

theorem released_eq_cut_twoCuts :
    ∃ out i, run 2 twoCuts .new = some (out, i) ∧ ∀ seqId,
      cutLength seqId twoCuts ≤ utf16Len (wholeText seqId twoCuts) ∧
      (∃ held, cutUnits (utf16Len (wholeText seqId twoCuts) - cutLength seqId twoCuts)
        (wholeText seqId twoCuts) = some (released seqId out ++ held)) ∧
      ((∀ other item, (itemsOf other twoCuts).getLast? = some item →
          item.finishReason ≠ .iterationContinue) →
        cutUnits (utf16Len (wholeText seqId twoCuts) - cutLength seqId twoCuts)
          (wholeText seqId twoCuts) = some (released seqId out)) :=
  released_eq_cut fits_twoCuts ⟨by decide, by decide, by decide, by decide, trivial⟩

/-- The sequence `0` has the window in each round, so that each round lets the round before go out,
also what the sequence `1` has in it. -/
def twoSequences : List (List (BestNTokens Unit)) :=
  [[⟨0, ['a', 'a', 'a'], .iterationContinue, 0, [], ()⟩,
      ⟨1, ['x'], .iterationContinue, 0, [], ()⟩],
    [⟨0, ['a', 'a', 'a'], .iterationContinue, 0, [], ()⟩,
      ⟨1, ['y'], .iterationContinue, 0, [], ()⟩],
    [⟨0, ['a', 'a', 'a'], .reachMaxOutputLen, 0, [], ()⟩,
      ⟨1, ['z'], .endOfSentence, -3, [], ()⟩]]

/-- With the stop string `xyz`, which the window is as long as, the text `x` has gone out. -/
theorem not_released_eq_cut :
    Along 3 Fits twoSequences .new ∧
      ∃ out i, run 3 twoSequences .new = some (out, i) ∧
        wholeText 1 twoSequences = ['x', 'y', 'z'] ∧ cutLength 1 twoSequences = 3 ∧
        cutUnits (utf16Len (wholeText 1 twoSequences) - cutLength 1 twoSequences)
          (wholeText 1 twoSequences) = some [] ∧
        released 1 out = ['x'] := by
  refine ⟨⟨⟨by decide, .inl rfl, by decide, by decide⟩, ?_⟩, ?_⟩
  · intro result hresult
    obtain rfl := Option.some.inj (Option.mem_def.mp hresult)
    refine ⟨⟨by decide, .inr (by decide), by decide, by decide⟩, ?_⟩
    intro result hresult
    obtain rfl := Option.some.inj (Option.mem_def.mp hresult)
    exact ⟨⟨by decide, .inr (by decide), by decide, by decide⟩, fun _ _ => trivial⟩
  · exact ⟨_, _, rfl, by decide, by decide, by decide, by decide⟩

end MindieLLM.StreamCache
