import MindieLLM.Speculative.KnowledgeBase
import Mathlib.Data.List.TakeWhile

/-!
# Answers that are put in as they grow

The tokens of an answer come in pieces, and the windows of the knowledge base are put in when they
are full. What is too short for a full window is kept for the next piece, under the cache id of the
request, and put in when the request has finished. The windows are those of the whole answer, if the
last call is given the size of the windows too.

The last call of the plugin leaves it out, and has the default size.

## Main definitions

* `KnowledgeBase.OutputCall`, `KnowledgeBase.outputAddCall`: a call of `output_add`
* `KnowledgeBase.windows`: the windows of tokens, each with the token before it
* `KnowledgeBase.insertions`: what the calls of a run put in, and for which cache id

## Main results

* `KnowledgeBase.windows_flatten`: what pieces put in, one after the other
* `KnowledgeBase.insertedFor_insertions_iff`: the windows of an answer are those of all of its
  tokens if and only if the last call leaves none out
* `KnowledgeBase.insertedFor_insertions_default`: windows that the plugin cuts
-/

namespace MindieLLM

open Program

namespace KnowledgeBase

variable (params : KnowledgeBaseParams)

/-- A call of `output_add`. -/
structure OutputCall where
  cacheId : Nat
  inputIds : List Int
  searchSize : Nat
  final : Bool

/-- The windows at the first positions of tokens, each with the token before it. -/
def windows (ids : List Int) (count searchSize : Nat) : List (Int × List Int) :=
  (List.range count).map fun i => (ids.getD i 0, slice ids (i + 1) (i + searchSize + 1))

namespace OutputCall

variable (c : OutputCall) (kb : TokensKnowledgeBaseCache)

def minSearchSize : Nat := if c.final then 1 else c.searchSize

/-- `temp_output_ids` -/
def tempOutputIds : List Int := kb.tempOutput c.cacheId ++ cutAtEos params c.inputIds

/-- The windows that the call puts in. -/
def inserted : List (Int × List Int) :=
  windows (c.tempOutputIds params kb) ((c.tempOutputIds params kb).length - c.minSearchSize)
    c.searchSize

end OutputCall

/-- `output_add` -/
def outputAddCall (c : OutputCall) (kb : TokensKnowledgeBaseCache) : TokensKnowledgeBaseCache :=
  let tempOutputIds := c.tempOutputIds params kb
  let put := (c.inserted params kb).foldl
    (fun kb w => putWindow params w.1 w.2 .output c.cacheId kb) kb
  if c.final then trim (clearInput c.cacheId (setTempOutput c.cacheId [] put))
  else
    setTempOutput c.cacheId
      (if c.searchSize < tempOutputIds.length then
        tempOutputIds.drop (tempOutputIds.length - c.searchSize)
      else tempOutputIds) put

/-- What the calls of a run put in, each window with the cache id. -/
def insertions : List OutputCall → TokensKnowledgeBaseCache → List (Nat × Int × List Int)
  | [], _ => []
  | c :: rest, kb =>
    (c.inserted params kb).map (fun w => (c.cacheId, w)) ++
      insertions rest (outputAddCall params c kb)

/-- What is put in for a cache id. -/
def insertedFor (b : Nat) (log : List (Nat × Int × List Int)) : List (Int × List Int) :=
  log.filterMap fun e => if e.1 = b then some e.2 else none

variable {params} {kb : TokensKnowledgeBaseCache} {b searchSize finalSize count k : Nat}
  {ids ids' : List Int} {c : OutputCall}

/-! ## The calls of the plugin -/

theorem cutAtEos_nil : cutAtEos params [] = [] := by
  unfold cutAtEos
  induction params.eos with
  | nil => rfl
  | cons e eos ih => exact ih

/-! ## Windows -/

theorem windows_add (ids : List Int) (count k searchSize : Nat) :
    windows ids (count + k) searchSize =
      windows ids count searchSize ++ windows (ids.drop count) k searchSize := by
  unfold windows
  rw [List.range_add, List.map_append, List.map_map]
  refine congrArg _ (List.map_congr_left fun i _ => ?_)
  simp only [Function.comp_apply, List.getD_eq_getElem?_getD, List.getElem?_drop, slice,
    List.drop_drop]
  grind

/-- A window that is full is not changed by what comes behind it. -/
theorem windows_append (h : count = 0 ∨ count + searchSize ≤ ids.length) :
    windows (ids ++ ids') count searchSize = windows ids count searchSize := by
  refine List.map_congr_left fun i hi => ?_
  have hi := List.mem_range.mp hi
  have hle : i + 1 + searchSize ≤ ids.length := by omega
  have hwindow : slice (ids ++ ids') (i + 1) (i + searchSize + 1) =
      slice ids (i + 1) (i + searchSize + 1) := by
    unfold slice
    rw [List.drop_append_of_le_length (by omega), List.take_append_of_le_length]
    rw [List.length_drop]
    omega
  rw [hwindow, List.getD_eq_getElem?_getD, List.getD_eq_getElem?_getD,
    List.getElem?_append_left (by omega)]

/-- Two sizes give the same windows if the rest of the tokens is not longer than either, and only
then if it is not longer than one of them. -/
theorem windows_eq_iff (h : ids.length ≤ searchSize + 1) :
    windows ids (ids.length - 1) finalSize = windows ids (ids.length - 1) searchSize ↔
      ids.length ≤ finalSize + 1 := by
  have hslice (size i : Nat) : slice ids (i + 1) (i + size + 1) = (ids.drop (i + 1)).take size := by
    unfold slice
    rw [Nat.add_right_comm, Nat.add_sub_cancel_left]
  have hfull (i : Nat) : (ids.drop (i + 1)).take searchSize = ids.drop (i + 1) := by
    refine List.take_of_length_le ?_
    rw [List.length_drop]
    omega
  unfold windows
  simp only [hslice, hfull]
  constructor
  · intro heq
    by_contra hlong
    -- the first window is cut
    have hfirst := congrArg (fun ws => (ws.headD (0, [])).2.length) heq
    obtain ⟨n, hn⟩ : ∃ n, ids.length - 1 = n + 1 := ⟨ids.length - 2, by omega⟩
    rw [hn, List.range_succ_eq_map] at hfirst
    simp only [List.map_cons, List.headD_cons, List.length_take, List.length_drop] at hfirst
    omega
  · intro hle
    refine List.map_congr_left fun i _ => ?_
    rw [List.take_of_length_le (by rw [List.length_drop]; omega)]

/-! ## Pieces -/

/-- What pieces put in after the tokens that are kept, and the last call. -/
def pieces (searchSize finalSize : Nat) : List Int → List (List Int) → List (Int × List Int)
  | kept, [] => windows kept (kept.length - 1) finalSize
  | kept, ids :: rest =>
    windows (kept ++ ids) ((kept ++ ids).length - searchSize) searchSize ++
      pieces searchSize finalSize ((kept ++ ids).drop ((kept ++ ids).length - searchSize)) rest

/-- **Pieces put in the full windows of all tokens so far**, and keep what follows the last of
them. -/
theorem windows_flatten (searchSize finalSize : Nat) (ids : List Int) (rest : List (List Int)) :
    windows ids (ids.length - searchSize) searchSize ++
        pieces searchSize finalSize (ids.drop (ids.length - searchSize)) rest =
      windows (ids ++ rest.flatten) ((ids ++ rest.flatten).length - searchSize) searchSize ++
        pieces searchSize finalSize
          ((ids ++ rest.flatten).drop ((ids ++ rest.flatten).length - searchSize)) [] := by
  induction rest generalizing ids with
  | nil => rw [List.flatten_nil, List.append_nil]
  | cons more rest ih =>
    have hkept : ids.drop (ids.length - searchSize) ++ more =
        (ids ++ more).drop (ids.length - searchSize) :=
      (List.drop_append_of_le_length (Nat.sub_le ..)).symm
    have hsplit : (ids ++ more).length - searchSize = (ids.length - searchSize) +
        (((ids ++ more).drop (ids.length - searchSize)).length - searchSize) := by
      rw [List.length_drop, List.length_append]
      omega
    have hall : windows (ids ++ more) ((ids ++ more).length - searchSize) searchSize =
        windows ids (ids.length - searchSize) searchSize ++
          windows ((ids ++ more).drop (ids.length - searchSize))
            (((ids ++ more).drop (ids.length - searchSize)).length - searchSize) searchSize := by
      rw [hsplit, windows_add, windows_append (by omega)]
    rw [List.flatten_cons, ← List.append_assoc, ← ih, hall, pieces, hkept, List.drop_drop, ← hsplit,
      List.append_assoc]

/-! ## Runs -/

theorem tempOutput_putWindows (ws : List (Int × List Int)) (b : Nat)
    (kb : TokensKnowledgeBaseCache) :
    (ws.foldl (fun kb w => putWindow params w.1 w.2 .output b kb) kb).tempOutput =
      kb.tempOutput := by
  induction ws generalizing kb with
  | nil => rfl
  | cons w ws ih => exact ih _

theorem tempOutput_trim (kb : TokensKnowledgeBaseCache) :
    (trim kb).tempOutput = kb.tempOutput := by
  unfold trim
  split <;> rfl

/-- What is kept for the cache ids after a call. -/
theorem tempOutput_outputAddCall (c : OutputCall) (kb : TokensKnowledgeBaseCache) :
    (outputAddCall params c kb).tempOutput = Function.update kb.tempOutput c.cacheId
      (if c.final then []
        else (c.tempOutputIds params kb).drop
          ((c.tempOutputIds params kb).length - c.searchSize)) := by
  unfold outputAddCall
  dsimp only
  split
  · rw [tempOutput_trim]
    change Function.update _ _ _ = _
    rw [tempOutput_putWindows]
  · change Function.update _ _ _ = _
    rw [tempOutput_putWindows]
    refine congrArg _ ?_
    split
    · rfl
    · next hle => rw [Nat.sub_eq_zero_of_le (by omega), List.drop_zero]

theorem insertedFor_insertions_cons (calls : List OutputCall) :
    insertedFor b (insertions params (c :: calls) kb) =
      (if c.cacheId = b then c.inserted params kb else []) ++
        insertedFor b (insertions params calls (outputAddCall params c kb)) := by
  unfold insertedFor
  rw [insertions, List.filterMap_append, List.filterMap_map]
  refine congrArg (· ++ _) ?_
  split
  · next heq =>
    simp only [Function.comp_def, heq, if_pos, List.filterMap_some]
  · next hne =>
    simp only [Function.comp_def, if_neg hne]
    exact List.filterMap_eq_nil_iff.mpr fun _ _ => rfl

/-- The calls for a cache id among others. -/
def callsFor (b : Nat) (calls : List OutputCall) : List OutputCall :=
  calls.filter fun c => c.cacheId = b

theorem insertedFor_insertions_nil {calls : List OutputCall} (h : callsFor b calls = []) :
    insertedFor b (insertions params calls kb) = [] := by
  induction calls generalizing kb with
  | nil => rfl
  | cons c calls ih =>
    have hall := List.filter_eq_nil_iff.mp h
    have hne : c.cacheId ≠ b := fun heq => hall c List.mem_cons_self (decide_eq_true heq)
    rw [insertedFor_insertions_cons, if_neg hne, List.nil_append]
    exact ih (List.filter_eq_nil_iff.mpr fun c' hc' => hall c' (List.mem_cons_of_mem _ hc'))

theorem cutAtEos_eq_self (h : ∀ t ∈ ids, t ∉ params.eos) : cutAtEos params ids = ids := by
  unfold cutAtEos
  have hnone : ∀ eos : List Int, (∀ t ∈ ids, t ∉ eos) →
      eos.foldl (fun ids e => ids.takeWhile fun t => t != e) ids = ids := by
    intro eos heos
    induction eos with
    | nil => rfl
    | cons e eos ih =>
      have hself : (ids.takeWhile fun t => t != e) = ids :=
        List.takeWhile_eq_self_iff.mpr fun t ht =>
          bne_iff_ne.mpr fun heq => heos t ht (heq ▸ List.mem_cons_self)
      rw [List.foldl_cons, hself]
      exact ih fun t ht hmem => heos t ht (List.mem_cons_of_mem _ hmem)
  exact hnone params.eos h

/-- Calls for other cache ids make no difference. -/
theorem insertedFor_insertions {calls : List OutputCall} {chunks : List (List Int)}
    (hcalls : callsFor b calls =
      chunks.map (fun ids => ⟨b, ids, searchSize, false⟩) ++ [⟨b, [], finalSize, true⟩])
    (heos : ∀ t ∈ chunks.flatten, t ∉ params.eos) :
    insertedFor b (insertions params calls kb) =
      pieces searchSize finalSize (kb.tempOutput b) chunks := by
  induction calls generalizing kb chunks with
  | nil => cases chunks <;> cases hcalls
  | cons c calls ih =>
    rw [insertedFor_insertions_cons]
    by_cases hb : c.cacheId = b
    · have hcons : callsFor b (c :: calls) = c :: callsFor b calls :=
        List.filter_cons_of_pos (decide_eq_true hb)
      rw [hcons] at hcalls
      rw [if_pos hb]
      cases chunks with
      | nil =>
        -- the last call
        obtain ⟨rfl, hrest⟩ := List.cons.inj hcalls
        rw [insertedFor_insertions_nil hrest, List.append_nil, pieces]
        unfold OutputCall.inserted OutputCall.tempOutputIds OutputCall.minSearchSize
        rw [cutAtEos_nil, List.append_nil]
        rfl
      | cons ids chunks =>
        obtain ⟨rfl, hrest⟩ := List.cons.inj hcalls
        rw [List.flatten_cons] at heos
        have hids : cutAtEos params ids = ids :=
          cutAtEos_eq_self fun t ht => heos t (List.mem_append_left _ ht)
        have htemp : OutputCall.tempOutputIds params ⟨b, ids, searchSize, false⟩ kb =
            kb.tempOutput b ++ ids := congrArg (_ ++ ·) hids
        rw [ih hrest fun t ht => heos t (List.mem_append_right _ ht), pieces,
          tempOutput_outputAddCall, htemp, Function.update_self]
        unfold OutputCall.inserted
        rw [htemp]
        rfl
    · have hcons : callsFor b (c :: calls) = callsFor b calls :=
        List.filter_cons_of_neg (by simpa using hb)
      rw [hcons] at hcalls
      rw [if_neg hb, List.nil_append, ih hcalls heos, tempOutput_outputAddCall,
        Function.update_of_ne (Ne.symm hb)]

/-- **The windows of an answer are those of all of its tokens**, whatever pieces they come in and
whatever is put in between, if and only if windows have a size and the last call does not cut the
tokens that are kept. -/
theorem insertedFor_insertions_iff (params : KnowledgeBaseParams) (kb : TokensKnowledgeBaseCache)
    (b : Nat) (hkept : kb.tempOutput b = []) (calls : List OutputCall) (chunks : List (List Int))
    (searchSize finalSize : Nat)
    (hcalls : callsFor b calls =
      chunks.map (fun ids => ⟨b, ids, searchSize, false⟩) ++ [⟨b, [], finalSize, true⟩])
    (heos : ∀ t ∈ chunks.flatten, t ∉ params.eos) :
    insertedFor b (insertions params calls kb) =
        windows chunks.flatten (chunks.flatten.length - 1) searchSize ↔
      (searchSize = 0 → chunks.flatten = []) ∧
        min chunks.flatten.length searchSize ≤ finalSize + 1 := by
  have hpieces := windows_flatten searchSize finalSize [] chunks
  rw [List.nil_append, List.length_nil, Nat.zero_sub, List.drop_zero] at hpieces
  rw [insertedFor_insertions hcalls heos, hkept]
  change windows [] 0 searchSize ++ _ = _ at hpieces
  have hnil : windows [] 0 searchSize = [] := rfl
  rw [hnil, List.nil_append, pieces] at hpieces
  rw [hpieces]
  generalize chunks.flatten = ids
  rcases Nat.eq_zero_or_pos searchSize with rfl | hpos
  · -- each token has an empty window, and so has the last
    rw [Nat.sub_zero, List.drop_length]
    change windows ids ids.length 0 ++ [] = _ ↔ _
    rw [List.append_nil]
    constructor
    · intro heq
      have hlength := congrArg List.length heq
      unfold windows at hlength
      rw [List.length_map, List.length_map, List.length_range, List.length_range] at hlength
      exact ⟨fun _ => List.length_eq_zero_iff.mp (by omega), by omega⟩
    · intro h
      rw [h.1 rfl]
      rfl
  · have hsplit := windows_add ids (ids.length - searchSize) (min ids.length searchSize - 1)
      searchSize
    have hlength : (ids.drop (ids.length - searchSize)).length = min ids.length searchSize := by
      rw [List.length_drop]
      omega
    rw [show ids.length - 1 = ids.length - searchSize + (min ids.length searchSize - 1) by omega,
      hsplit, List.append_right_inj, ← hlength, windows_eq_iff (by omega)]
    exact (and_iff_right fun h => absurd h hpos.ne').symm

/-- An answer in two pieces, with another between them. -/
theorem insertedFor_insertions_pieces :
    insertedFor 0 (insertions { eos := [2] }
        [⟨0, [5, 6], 2, false⟩, ⟨1, [9, 2, 9], 4, false⟩, ⟨0, [7], 2, false⟩, ⟨0, [], 2, true⟩]
        {}) =
      windows [5, 6, 7] 2 2 :=
  (insertedFor_insertions_iff { eos := [2] } {} 0 rfl _ [[5, 6], [7]] 2 2 rfl (by decide)).mpr
    ⟨nofun, by decide⟩

/-- The plugin puts in windows of 17 tokens, and the last call has the default of 8. -/
theorem insertedFor_insertions_default :
    insertedFor 0 (insertions { eos := [2] }
        [⟨0, [11, 12, 13, 14, 15, 16, 17, 18, 19, 20], 17, false⟩, ⟨0, [], 8, true⟩] {}) ≠
      windows [11, 12, 13, 14, 15, 16, 17, 18, 19, 20] 9 17 := by
  decide +kernel

end KnowledgeBase

end MindieLLM
