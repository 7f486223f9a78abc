import MindieLLM.Connector.ChunkGroups
import MindieLLM.Program.Interleaving
import MindieLLM.Program.OptionLoops

/-!
# The prefill queue of the edge

Requests enter the queue of prefill stages at the edge while others are under way. Every request
should come out of it whole: the first stages of its chunks in order, the last stages in order, each
last stage after the first stage of its chunk, and the end mark on the last of all.

A long request whose own data-parallel rank has nothing, or at most half of what makes a request
long, is to be one chunk with dummies after it. The function that makes these never returns them,
and the request cannot be prepared.

## Main definitions

* `Stage`: a stage without what it receives
* `CompleteStages`: all stages of a request, in order
* `QueueOp`, `QueueState`, `run`: requests enter the queues and stages leave them

## Main results

* `prepareQueue_complete`: a request enters whole, and nothing else is moved
* `run_complete`: in every run, what was popped and what is queued interleaves complete requests
-/

namespace MindieLLM.Layerwise

open Program

/-! ## Stages -/

/-- A stage: its layers, its chunk, and whether it ends the generation of the token. -/
structure Stage where
  layers : ℕ × ℕ
  chunk : ℕ × ℕ
  endOfGenerateToken : Bool
  deriving DecidableEq

def LwdMetadata.stage (m : LwdMetadata) : Stage :=
  ⟨(m.startExecLayer, m.endExecLayer), (m.longSeqStartIdx, m.longSeqEndIdx), m.endOfGenerateToken⟩

/-- A stage of the queue and the key of its request. -/
def PrefillEntry.stage (e : PrefillEntry) : ℕ × Stage := (e.1, e.2.1.stage)

/-- The chunks that the edge cuts a request in; one for a request that is not long. -/
def chunksOf (cfg : Config) (request : ExecuteRequest) : Option (List (ℕ × ℕ)) :=
  if isLongRequest cfg request then
    (cfg.getChunkLenPolicy (prefillDpSeqLen cfg request) true).map fun lens =>
      (chunkPolicy lens).zip (chunkPolicy lens).tail
  else some [(0, 0)]

def firstStages (requestKey : ℕ) (chunks : List (ℕ × ℕ)) : List (ℕ × Stage) :=
  chunks.map fun chunk => (requestKey, ⟨(0, 0), chunk, false⟩)

def lastStages (requestKey : ℕ) (chunks : List (ℕ × ℕ)) : List (ℕ × Stage) :=
  chunks.mapIdx fun i chunk => (requestKey, ⟨(1, 1), chunk, i + 1 == chunks.length⟩)

/-- All the stages of a request: the first stage of each chunk and the last stage of each chunk, in
the order of the chunks and in step, with one end mark, on the last of them. -/
structure CompleteStages (requestKey : ℕ) (chunks : List (ℕ × ℕ)) (stages : List (ℕ × Stage)) :
    Prop where
  staged : Staged (firstStages requestKey chunks) (lastStages requestKey chunks) stages
    chunks.length chunks.length
  firsts : stages.filter (fun e => e.2.layers = (0, 0)) = firstStages requestKey chunks
  lasts : stages.filter (fun e => e.2.layers = (1, 1)) = lastStages requestKey chunks
  end_mark : stages.filter (fun e => e.2.endOfGenerateToken) = stages.getLast?.toList
  ne_nil : stages ≠ []

/-! ## Complete requests -/

theorem lastStages_concat (requestKey : ℕ) (init : List (ℕ × ℕ)) (chunk : ℕ × ℕ) :
    lastStages requestKey (init ++ [chunk]) =
      init.map (fun c => (requestKey, ⟨(1, 1), c, false⟩)) ++
        [(requestKey, ⟨(1, 1), chunk, true⟩)] := by
  rw [lastStages, List.mapIdx_append]
  congr 1
  · refine List.ext_getElem (by simp) fun i hi _ => ?_
    simp only [List.length_mapIdx] at hi
    simp only [List.getElem_mapIdx, List.getElem_map, List.length_append, List.length_singleton,
      Prod.mk.injEq, Stage.mk.injEq, true_and, beq_eq_false_iff_ne]
    omega
  · simp

theorem layers_of_mem_firstStages {requestKey : ℕ} {chunks : List (ℕ × ℕ)} {e : ℕ × Stage}
    (he : e ∈ firstStages requestKey chunks) :
    e.2.layers = (0, 0) ∧ e.2.endOfGenerateToken = false := by
  obtain ⟨c, -, rfl⟩ := List.mem_map.mp he
  exact ⟨rfl, rfl⟩

theorem layers_of_mem_lastStages {requestKey : ℕ} {chunks : List (ℕ × ℕ)} {e : ℕ × Stage}
    (he : e ∈ lastStages requestKey chunks) : e.2.layers = (1, 1) := by
  obtain ⟨i, hi, rfl⟩ := List.mem_mapIdx.mp he
  rfl

theorem completeStages_of_staged {requestKey : ℕ} {chunks : List (ℕ × ℕ)}
    {stages : List (ℕ × Stage)} (hne : chunks ≠ [])
    (h : Staged (firstStages requestKey chunks) (lastStages requestKey chunks) stages
      chunks.length chunks.length) : CompleteStages requestKey chunks stages := by
  have htakeFirsts : (firstStages requestKey chunks).take chunks.length =
      firstStages requestKey chunks := List.take_of_length_le (by simp [firstStages])
  have htakeLasts : (lastStages requestKey chunks).take chunks.length =
      lastStages requestKey chunks := List.take_of_length_le (by simp [lastStages])
  obtain ⟨init, chunk, rfl⟩ := (List.eq_nil_or_concat' chunks).resolve_left hne
  have hlast : stages.getLast? = some (requestKey, ⟨(1, 1), chunk, true⟩) := by
    rw [List.length_append, List.length_singleton] at h
    rw [h.getLast?_eq, lastStages_concat, List.getElem?_append_right (by simp)]
    simp
  have hmarks := h.shuffle.filter fun e => e.2.endOfGenerateToken
  rw [htakeFirsts, htakeLasts, lastStages_concat, List.filter_eq_nil_iff.mpr fun e he => by
    simp [(layers_of_mem_firstStages he).2]] at hmarks
  refine ⟨h, ?_, ?_, ?_, ?_⟩
  · rw [h.filter_first, htakeFirsts]
    · exact fun e he => by simp [(layers_of_mem_firstStages he).1]
    · exact fun e he => by simp [layers_of_mem_lastStages he]
  · rw [h.filter_last, htakeLasts]
    · exact fun e he => by simp [(layers_of_mem_firstStages he).1]
    · exact fun e he => by simp [layers_of_mem_lastStages he]
  · rw [hmarks.eq_right, hlast, List.filter_append, List.filter_eq_nil_iff.mpr]
    · simp
    · intro e he
      obtain ⟨c, -, rfl⟩ := List.mem_map.mp he
      simp
  · rintro rfl
    simp at hlast

/-! ## The loops that fill the queue -/

namespace Filling

variable {s : Filling}

theorem putFirst_cons {metadata : LwdMetadata} {rest : List LwdMetadata}
    (h : s.pFirstMetadataList = some (metadata :: rest)) (requestKey groups group n j : ℕ) :
    s.putFirst requestKey groups group n j =
      some ⟨some rest, s.pLastMetadataList,
        s.queue ++ [(requestKey, metadata, ⟨groups, group, n, j⟩)]⟩ := by
  rw [putFirst, h]
  rfl

theorem putLast_cons {metadata : LwdMetadata} {rest : List LwdMetadata}
    (h : s.pLastMetadataList = some (metadata :: rest)) (requestKey groups group n : ℕ) (pos : ℤ)
    (j : ℕ) :
    putLast requestKey groups group n (s, pos) j =
      some (⟨s.pFirstMetadataList, some rest,
          s.queue ++
            [(requestKey, { metadata with hiddenStartPos := pos }, ⟨groups, group, n, j⟩)]⟩,
        pos + (metadata.longSeqEndIdx - metadata.longSeqStartIdx)) := by
  rw [putLast, h]
  rfl

theorem setRecvList_concat {queue : List PrefillEntry} {entry : PrefillEntry}
    (h : s.queue = queue ++ [entry]) (recvLen : ℕ) :
    s.setRecvList recvLen =
      some { s with
        queue := queue ++
          [(entry.1, { entry.2.1 with longSeqRecvList := [(0, (recvLen : ℕ))] }, entry.2.2)] } := by
  rw [setRecvList, h, List.getLast?_concat]
  simp

end Filling

/-- What the loops keep: the first `a` first stages and the first `b` last stages of the request are
in the queue, among what was there. The last entry is of the request as soon as there is a last
stage, and then its group is not larger than the request. -/
structure Filled (requestKey : ℕ) (firsts lasts : List LwdMetadata) (base : List (ℕ × Stage))
    (s : Filling) (a b : ℕ) : Prop where
  firsts_left : s.pFirstMetadataList = some (firsts.drop a)
  lasts_left : s.pLastMetadataList = some (lasts.drop b)
  own : ∃ own, Staged (firsts.map fun m => (requestKey, m.stage))
      (lasts.map fun m => (requestKey, m.stage)) own a b ∧
    Shuffle base own (s.queue.map PrefillEntry.stage)
  last_le : 0 < b → ∀ e ∈ s.queue.getLast?, e.2.2.chunkIndexSize ≤ firsts.length

namespace Filled

variable {requestKey : ℕ} {firsts lasts : List LwdMetadata} {base : List (ℕ × Stage)} {s : Filling}
  {a b : ℕ}

theorem putFirst (h : Filled requestKey firsts lasts base s a b) (ha : a < firsts.length)
    (groups group : ℕ) {n : ℕ} (hn : n ≤ firsts.length) (j : ℕ) :
    ∃ s', s.putFirst requestKey groups group n j = some s' ∧
      Filled requestKey firsts lasts base s' (a + 1) b := by
  obtain ⟨own, hstaged, hshuffle⟩ := h.own
  have hdrop : firsts.drop a = firsts[a] :: firsts.drop (a + 1) := List.drop_eq_getElem_cons ha
  refine ⟨_, Filling.putFirst_cons (h.firsts_left.trans (congrArg some hdrop)) .., rfl,
    h.lasts_left, ?_, by simpa using fun _ => hn⟩
  refine ⟨own ++ [(requestKey, firsts[a].stage)], .first hstaged (by simp [ha]), ?_⟩
  simpa [PrefillEntry.stage] using hshuffle.append_right _

theorem putFirsts (h : Filled requestKey firsts lasts base s a b) {n : ℕ}
    (ha : a + n ≤ firsts.length) (groups group : ℕ) :
    ∃ s', s.putFirsts requestKey groups group n = some s' ∧
      Filled requestKey firsts lasts base s' (a + n) b :=
  foldlM_range_some (I := fun i s => Filled requestKey firsts lasts base s (a + i) b) h
    fun i _ hi hs => hs.putFirst (by omega) groups group (by omega) i

theorem putLast (h : Filled requestKey firsts lasts base s a b) (hb : b < lasts.length)
    (hlt : b < a) (groups group : ℕ) {n : ℕ} (hn : n ≤ firsts.length) (pos : ℤ) (j : ℕ) :
    ∃ s', Filling.putLast requestKey groups group n (s, pos) j = some s' ∧
      Filled requestKey firsts lasts base s'.1 a (b + 1) := by
  obtain ⟨own, hstaged, hshuffle⟩ := h.own
  have hdrop : lasts.drop b = lasts[b] :: lasts.drop (b + 1) := List.drop_eq_getElem_cons hb
  refine ⟨_, Filling.putLast_cons (h.lasts_left.trans (congrArg some hdrop)) .., h.firsts_left,
    rfl, ?_, by simpa using hn⟩
  refine ⟨own ++ [(requestKey, lasts[b].stage)], .last hstaged hlt (by simp [hb]), ?_⟩
  simpa [PrefillEntry.stage, LwdMetadata.stage] using hshuffle.append_right _

theorem putLasts (h : Filled requestKey firsts lasts base s a b) {n : ℕ}
    (hb : b + n ≤ lasts.length) (hle : b + n ≤ a) (hn : n ≤ firsts.length) (groups group : ℕ) :
    ∃ s', s.putLasts requestKey groups group n = some s' ∧
      Filled requestKey firsts lasts base s' a (b + n) := by
  obtain ⟨⟨s', pos⟩, hs', h'⟩ := foldlM_range_some (n := n)
    (f := Filling.putLast requestKey groups group n) (s := (s, 0))
    (I := fun i s => Filled requestKey firsts lasts base s.1 a (b + i)) h
    fun i s hi hs => hs.putLast (by omega) (by omega) groups group hn s.2 i
  exact ⟨s', by rw [Filling.putLasts, hs']; rfl, h'⟩

/-- What is to be received is not part of a stage. -/
theorem setRecvList (h : Filled requestKey firsts lasts base s a b) (ha : 0 < a) (recvLen : ℕ) :
    ∃ s', s.setRecvList recvLen = some s' ∧ Filled requestKey firsts lasts base s' a b := by
  obtain ⟨own, hstaged, hshuffle⟩ := h.own
  obtain ⟨queue, entry, hqueue⟩ : ∃ queue entry, s.queue = queue ++ [entry] := by
    rcases List.eq_nil_or_concat' s.queue with hnil | h
    · rw [hnil] at hshuffle
      cases hshuffle
      have hlength := hstaged.length_eq
      simp at hlength
      omega
    · exact h
  have hlast := h.last_le
  rw [hqueue] at hshuffle hlast
  refine ⟨_, Filling.setRecvList_concat hqueue recvLen, h.firsts_left, h.lasts_left,
    ⟨own, hstaged, ?_⟩, by simpa using hlast⟩
  simpa [PrefillEntry.stage, LwdMetadata.stage] using hshuffle

/-- Entries from before are put back. -/
theorem putBack (h : Filled requestKey firsts lasts base s a 0) (entries : List PrefillEntry) :
    Filled requestKey firsts lasts (base ++ entries.map PrefillEntry.stage)
      { s with queue := s.queue ++ entries } a 0 := by
  obtain ⟨own, hstaged, hshuffle⟩ := h.own
  refine ⟨h.firsts_left, h.lasts_left, ⟨own, hstaged, ?_⟩, fun h0 => absurd h0 (Nat.lt_irrefl 0)⟩
  simpa using hshuffle.append_left (entries.map PrefillEntry.stage)

theorem putGroup {sizes cloudLens : List ℕ} {i : ℕ}
    (h : Filled requestKey firsts lasts base s (sizes.take (i + 1)).sum (sizes.take i).sum)
    (hi : i + 1 < sizes.length) (hcloud : sizes.length ≤ cloudLens.length)
    (hpos : 0 < (sizes.take (i + 1)).sum) (hfirsts : sizes.sum = firsts.length)
    (hlasts : sizes.sum = lasts.length) :
    ∃ s', s.putGroup requestKey sizes cloudLens (i + 1) = some s' ∧
      Filled requestKey firsts lasts base s' (sizes.take (i + 2)).sum (sizes.take (i + 1)).sum := by
  have hnext : (sizes.take (i + 2)).sum = (sizes.take (i + 1)).sum + sizes[i + 1] := by
    rw [List.take_succ_eq_append_getElem hi, List.sum_append, List.sum_singleton]
  have hlast : (sizes.take (i + 1)).sum = (sizes.take i).sum + sizes[i] := by
    rw [List.take_succ_eq_append_getElem (by omega), List.sum_append, List.sum_singleton]
  have htotal := sum_take_le sizes (show i + 2 ≤ sizes.length from hi)
  rw [List.take_length] at htotal
  obtain ⟨s₁, hs₁, h₁⟩ := h.putFirsts (n := sizes[i + 1]) (by omega) sizes.length (i + 1)
  obtain ⟨s₂, hs₂, h₂⟩ := h₁.setRecvList (by omega) cloudLens[i]
  obtain ⟨s₃, hs₃, h₃⟩ := h₂.putLasts (n := sizes[i]) (by omega) (by omega) (by omega)
    sizes.length i
  rw [← hnext, ← hlast] at h₃
  refine ⟨s₃, ?_, h₃⟩
  rw [Filling.putGroup, List.getElem?_eq_getElem hi, Nat.add_sub_cancel,
    List.getElem?_eq_getElem (show i < sizes.length by omega),
    List.getElem?_eq_getElem (show i < cloudLens.length by omega)]
  simp only [Option.bind_eq_bind, Option.bind_some, hs₁, hs₂, hs₃]

end Filled

/-! ## A request enters the queue -/

/-- All stages of a long request enter the queue, and the entries from before keep their order. -/
theorem generateSendMetadataToQueue_complete {queue : List PrefillEntry} {requestKey size n N : ℕ}
    {sizes cloudLens : List ℕ} {firsts lasts : List LwdMetadata} (hsize : 0 < size)
    (hsizes : size + sizes.sum = N) (hfirsts : firsts.length = N) (hlasts : lasts.length = N)
    (hcloud : sizes.length + 1 = cloudLens.length) :
    ∃ queue' own, generateSendMetadataToQueue queue requestKey (size :: sizes) (some firsts)
        (some lasts) n cloudLens = some queue' ∧
      Staged (firsts.map fun m => (requestKey, m.stage)) (lasts.map fun m => (requestKey, m.stage))
        own N N ∧
      Shuffle (queue.map PrefillEntry.stage) own (queue'.map PrefillEntry.stage) ∧
      ∀ e ∈ queue'.getLast?, e.2.2.chunkIndexSize ≤ N := by
  have hN : 0 < N := by omega
  rw [← List.sum_cons] at hsizes
  rw [← List.length_cons (a := size)] at hcloud
  have htake : ((size :: sizes).take 1).sum = size := by simp
  obtain ⟨kept, hkept⟩ : ∃ kept, kept = queue.length - tailSize queue n := ⟨_, rfl⟩
  have hstart : Filled requestKey firsts lasts ((queue.take kept).map PrefillEntry.stage)
      ⟨some firsts, some lasts, queue.take kept⟩ 0 0 :=
    ⟨rfl, rfl, ⟨[], .nil, .only_left _⟩, fun h0 => absurd h0 (Nat.lt_irrefl 0)⟩
  obtain ⟨s₁, hs₁, h₁⟩ := hstart.putFirsts (n := size)
    (by rw [hfirsts, ← hsizes, List.sum_cons]; omega) (sizes.length + 1) 0
  have h₂ := h₁.putBack (queue.drop kept)
  rw [← List.map_append, List.take_append_drop, Nat.zero_add, ← htake] at h₂
  obtain ⟨s₃, hs₃, h₃⟩ := foldlM_range'_some (n := sizes.length)
    (f := Filling.putGroup requestKey (size :: sizes) cloudLens)
    (I := fun i s => Filled requestKey firsts lasts (queue.map PrefillEntry.stage) s
      ((size :: sizes).take i).sum ((size :: sizes).take (i - 1)).sum) h₂ fun i s hlo hhi hs => by
    obtain ⟨i, rfl⟩ := Nat.exists_eq_add_of_le' hlo
    have hle := sum_take_le (size :: sizes) (show 1 ≤ i + 1 from hlo)
    exact hs.putGroup (by simp; omega) hcloud.le (by omega) (hsizes.trans hfirsts.symm)
      (hsizes.trans hlasts.symm)
  rw [Nat.add_comm 1 sizes.length, Nat.add_sub_cancel, List.take_of_length_le (by simp)] at h₃
  obtain ⟨last, hlast⟩ : ∃ last, (size :: sizes)[sizes.length]? = some last :=
    ⟨_, List.getElem?_eq_getElem (by simp)⟩
  have hsum : (size :: sizes).sum = ((size :: sizes).take sizes.length).sum + last := by
    have htake := List.take_add_one (l := size :: sizes) (i := sizes.length)
    rw [hlast, List.take_of_length_le (by simp)] at htake
    rw [htake]
    simp
  obtain ⟨len, hlen⟩ : ∃ len, cloudLens.getLast? = some len := by
    refine Option.isSome_iff_exists.mp (List.getLast?_isSome.mpr ?_)
    rintro rfl
    simp at hcloud
  obtain ⟨s₄, hs₄, h₄⟩ := h₃.setRecvList (by rw [List.sum_cons]; omega) len
  obtain ⟨s₅, hs₅, h₅⟩ := h₄.putLasts (n := last) (by omega) (by omega) (by omega)
    (sizes.length + 1) sizes.length
  rw [← hsum, hsizes] at h₅
  obtain ⟨own, hstaged, hshuffle⟩ := h₅.own
  refine ⟨s₅.queue, own, ?_, hstaged, hshuffle, hfirsts ▸ h₅.last_le hN⟩
  rw [generateSendMetadataToQueue]
  simp only [List.length_cons, List.getElem?_cons_zero, List.getLast?_eq_getElem?,
    Nat.add_sub_cancel, List.reverse_reverse, ← hkept] at hlen ⊢
  simp only [Option.bind_eq_bind, Option.bind_some, hs₁, hs₃, hlen, hs₄, hlast, hs₅]
  rfl

/-- A long request has at this rank something of its own, and more than half of what makes a request
long. -/
def HasOwnChunks (cfg : Config) (request : ExecuteRequest) : Prop :=
  isLongRequest cfg request → dpEmpty cfg request = false ∧
    cfg.longSeqLenMin < 2 * prefillDpSeqLen cfg request

instance (cfg : Config) (request : ExecuteRequest) : Decidable (HasOwnChunks cfg request) :=
  inferInstanceAs (Decidable (_ → _))

/-- The chunk manager cuts such a length on both sides, in chunks that fit together. -/
def Config.Fits (cfg : Config) : Prop :=
  ∀ len, cfg.longSeqLenMin < 2 * len → ∃ edge cloud, cfg.getChunkLenPolicy len true = some edge ∧
    cfg.getChunkLenPolicy len false = some cloud ∧ FitTogether edge cloud

/-- Every length that is cut by an entry has a token for each chunk. -/
def ChunkPrefilPolicy.Fine (p : ChunkPrefilPolicy) : Prop :=
  ∀ entry ∈ p.ratioListDefaultEdgeMap ++ p.ratioListDefaultCloudMap,
    0 < entry.2.length ∧ entry.2.length + 1023 ≤ 1024 * entry.1

/-- **The chunk manager**, without context parallelism, cuts both sides alike. -/
theorem fits_getChunkLenPolicy {cfg : Config} {p : ChunkPrefilPolicy}
    {splitLongSeqByRatio : ℕ → List ℕ → ℕ → Option (List ℕ)}
    (hpolicy : cfg.getChunkLenPolicy = p.getChunkLenPolicy splitLongSeqByRatio) (hfine : p.Fine)
    (hcp : p.cpSize ≤ 1) (hmin : 2 ≤ cfg.longSeqLenMin) : cfg.Fits := by
  intro len hlen
  have hnum : ∀ isEdge, ∃ num, cfg.getChunkLenPolicy len isEdge =
      some (splitLongSeqByChunkNum len num) ∧ 0 < num ∧ num ≤ len := by
    intro isEdge
    refine ⟨_, by rw [hpolicy, ChunkPrefilPolicy.getChunkLenPolicy, if_neg hcp.not_gt], ?_⟩
    cases hfind : List.find? (fun entry => entry.1 ≤ (len + 1023) / 1024)
        (if isEdge then p.ratioListDefaultEdgeMap else p.ratioListDefaultCloudMap) with
    | none => exact ⟨Nat.two_pos, show 2 ≤ len by omega⟩
    | some entry =>
      have hmem : entry ∈ p.ratioListDefaultEdgeMap ++ p.ratioListDefaultCloudMap := by
        have := List.mem_of_find?_eq_some hfind
        cases isEdge <;> simp_all
      have hkey : entry.1 ≤ (len + 1023) / 1024 := by simpa using List.find?_some hfind
      obtain ⟨hpos, hle⟩ := hfine entry hmem
      exact ⟨hpos, show entry.2.length ≤ len by omega⟩
  obtain ⟨edgeNum, hedge, hedge_pos, hedge_le⟩ := hnum true
  obtain ⟨cloudNum, hcloud, hcloud_pos, hcloud_le⟩ := hnum false
  exact ⟨_, _, hedge, hcloud,
    fitTogether_splitLongSeqByChunkNum hedge_pos hcloud_pos hedge_le hcloud_le⟩

theorem length_zip_tail_chunkPolicy (lens : List ℕ) :
    ((chunkPolicy lens).zip (chunkPolicy lens).tail).length = lens.length := by
  simp [length_chunkPolicy]

theorem chunkMetadata_firsts (lens : List ℕ) (len requestKey : ℕ) :
    ((List.range lens.length).map (chunkMetadata (chunkPolicy lens) len true requestKey)).map
        (fun m => (requestKey, m.stage)) =
      firstStages requestKey ((chunkPolicy lens).zip (chunkPolicy lens).tail) := by
  have hlength := length_chunkPolicy lens
  refine List.ext_getElem (by simp [firstStages, hlength]) fun i hi _ => ?_
  simp only [List.length_map, List.length_range] at hi
  simp [firstStages, chunkMetadata, LwdMetadata.stage, hlength, hi, Nat.lt_succ_of_lt hi]

theorem chunkMetadata_lasts (lens : List ℕ) (len requestKey : ℕ) :
    ((List.range lens.length).map (chunkMetadata (chunkPolicy lens) len false requestKey)).map
        (fun m => (requestKey, m.stage)) =
      lastStages requestKey ((chunkPolicy lens).zip (chunkPolicy lens).tail) := by
  have hlength := length_chunkPolicy lens
  refine List.ext_getElem (by simp [lastStages, hlength]) fun i hi _ => ?_
  simp only [List.length_map, List.length_range] at hi
  simp [lastStages, chunkMetadata, LwdMetadata.stage, hlength, hi, Nat.lt_succ_of_lt hi]
  omega

theorem prepareShortPrefill_complete (queue : List PrefillEntry) (requestKey : ℕ) :
    ∃ own, CompleteStages requestKey [(0, 0)] own ∧
      Shuffle (queue.map PrefillEntry.stage) own
        ((prepareShortPrefill queue requestKey).map PrefillEntry.stage) := by
  have hstaged : Staged (firstStages requestKey [(0, 0)]) (lastStages requestKey [(0, 0)])
      ([(requestKey, ⟨(0, 0), (0, 0), false⟩)] ++ [(requestKey, ⟨(1, 1), (0, 0), true⟩)]) 1 1 :=
    .last (.first .nil rfl) Nat.one_pos rfl
  refine ⟨_, completeStages_of_staged (by simp) hstaged, ?_⟩
  rcases List.eq_nil_or_concat' queue with rfl | ⟨queue, last, rfl⟩
  · exact .only_right _
  · rw [prepareShortPrefill, List.getLast?_concat]
    simpa [PrefillEntry.stage, LwdMetadata.stage, shortMetadata] using Shuffle.insert
      (queue.map PrefillEntry.stage) [(requestKey, ⟨(0, 0), (0, 0), false⟩)] [last.stage]
      [(requestKey, ⟨(1, 1), (0, 0), true⟩)]

/-- A request enters the queue whole, and the entries from before keep their order. What a next
request may put itself before is not the whole queue. -/
theorem prepareQueue_complete {cfg : Config} (hfit : cfg.Fits) {request : ExecuteRequest}
    (hown : HasOwnChunks cfg request) (queue : List PrefillEntry) (requestKey : ℕ) :
    ∃ queue' chunks own, prepareQueue cfg queue requestKey request = some queue' ∧
      chunksOf cfg request = some chunks ∧ CompleteStages requestKey chunks own ∧
      Shuffle (queue.map PrefillEntry.stage) own (queue'.map PrefillEntry.stage) ∧
      ∀ e ∈ queue'.getLast?, e.2.2.chunkIndexSize < queue'.length := by
  rw [prepareQueue, chunksOf]
  by_cases hlong : isLongRequest cfg request
  · obtain ⟨hempty, hlen⟩ := hown hlong
    obtain ⟨edge, cloud, hedge, hcloud, hfits⟩ := hfit _ hlen
    obtain ⟨size, sizes, hgroups, hsize, hsum, hlength⟩ := hfits.groups
    have hpos : 0 < edge.length := by omega
    rw [if_pos hlong, if_pos hlong, prepareLongPrefill, hedge, hcloud]
    simp only [Option.bind_eq_bind, Option.bind_some, Option.map_some, hgroups]
    rw [prepareChunkPrefillMetadata, prepareChunkPrefillMetadata, if_neg (by simp [hempty, hlen]),
      if_neg (by simp [hempty, hlen]), length_chunkPolicy, Nat.add_sub_cancel]
    let metadataList isPFirst := (List.range edge.length).map <|
      chunkMetadata (chunkPolicy edge) (prefillDpSeqLen cfg request) isPFirst requestKey
    have hnum : ∀ isPFirst, (metadataList isPFirst).length = edge.length := by simp [metadataList]
    obtain ⟨queue', own, hqueue, hstaged, hshuffle, hlast⟩ := generateSendMetadataToQueue_complete
      (n := edgeEqLastChunkNum queue) hsize hsum (hnum true) (hnum false) hlength
    rw [chunkMetadata_firsts, chunkMetadata_lasts] at hstaged
    have hlength := hshuffle.length_eq
    rw [List.length_map, List.length_map, hstaged.length_eq] at hlength
    refine ⟨queue', _, own, hqueue, rfl, completeStages_of_staged ?_ ?_, hshuffle, fun e he => ?_⟩
    · rw [← List.length_pos_iff]
      simpa [length_chunkPolicy] using hpos
    · rwa [length_zip_tail_chunkPolicy]
    · have hle := hlast e he
      omega
  · obtain ⟨own, hcomplete, hshuffle⟩ := prepareShortPrefill_complete queue requestKey
    rw [if_neg hlong, if_neg hlong]
    refine ⟨_, _, own, rfl, rfl, hcomplete, hshuffle, ?_⟩
    rcases List.eq_nil_or_concat' queue with rfl | ⟨queue, last, rfl⟩ <;>
      simp [prepareShortPrefill]

/-! ## Decisions -/

section Decisions

variable {sig : Signals} {q : Queues}

theorem isFirstStage_of_doPrefillFirst (h : calcDecisionType sig q = .doPrefillFirst) :
    isFirstStage (q.prefillMetadataQueue.head?.map fun entry => entry.2.1) := by
  unfold calcDecisionType calcDecodePriorityDecisionType calcPrefillPriorityDecisionType at h
  grind

theorem isLastStage_of_doPrefillLast (h : calcDecisionType sig q = .doPrefillLast) :
    isLastStage (q.prefillMetadataQueue.head?.map fun entry => entry.2.1) := by
  unfold calcDecisionType calcDecodePriorityDecisionType calcPrefillPriorityDecisionType at h
  grind

theorem isFirstStage_of_doDecodeFirst (h : calcDecisionType sig q = .doDecodeFirst) :
    isFirstStage (q.decodeMetadataQueue.head?.map fun entry => entry.2) := by
  unfold calcDecisionType calcDecodePriorityDecisionType calcPrefillPriorityDecisionType at h
  grind

theorem isLastStage_of_doDecodeLast (h : calcDecisionType sig q = .doDecodeLast) :
    isLastStage (q.decodeMetadataQueue.head?.map fun entry => entry.2) := by
  unfold calcDecisionType calcDecodePriorityDecisionType calcPrefillPriorityDecisionType at h
  grind

theorem ne_nil_of_isFirstStage {α : Type} {l : List α} {f : α → LwdMetadata}
    (h : isFirstStage (l.head?.map f)) : ∃ a rest, l = a :: rest ∧ (f a).startExecLayer = 0 := by
  cases l with
  | nil => cases h
  | cons a rest => exact ⟨a, rest, rfl, by simpa [isFirstStage] using h⟩

theorem ne_nil_of_isLastStage {α : Type} {l : List α} {f : α → LwdMetadata}
    (h : isLastStage (l.head?.map f)) : ∃ a rest, l = a :: rest ∧ (f a).endExecLayer = 1 := by
  cases l with
  | nil => cases h
  | cons a rest => exact ⟨a, rest, rfl, by simpa [isLastStage] using h⟩

end Decisions

/-! ## Runs -/

inductive QueueOp
  | prepare (requestKey : ℕ) (request : ExecuteRequest)
  | prepareDecode (requestKey : ℕ)
  | exec (sig : Signals)

/-- The queues, and the prefill stages that were popped, each with the decision. -/
structure QueueState where
  queues : Queues := {}
  popped : List (DecisionType × ℕ × LwdMetadata) := []
  deriving DecidableEq

def isPrefillDecision : DecisionType → Bool
  | .doPrefillFirst | .doPrefillLast => true
  | _ => false

def QueueState.step (cfg : Config) (s : QueueState) : QueueOp → Option QueueState
  | .prepare requestKey request => do
    let queue ← prepareQueue cfg s.queues.prefillMetadataQueue requestKey request
    return { s with queues := { s.queues with prefillMetadataQueue := queue } }
  | .prepareDecode requestKey =>
    some { s with queues := { s.queues with
      decodeMetadataQueue := prepareDecodeRequest s.queues.decodeMetadataQueue requestKey } }
  | .exec sig => do
    let decision := calcDecisionType sig s.queues
    let (stage, queues) ← arrangeExecStage s.queues decision
    let stages := if isPrefillDecision decision then stage.toList.map fun e => (decision, e) else []
    return ⟨queues, s.popped ++ stages⟩

def run (cfg : Config) (s : QueueState) (ops : List QueueOp) : Option QueueState :=
  ops.foldlM (QueueState.step cfg) s

/-- The prefill requests that were prepared, with their keys. -/
def prepared (ops : List QueueOp) : List (ℕ × ExecuteRequest) :=
  ops.filterMap fun
    | .prepare requestKey request => some (requestKey, request)
    | _ => none

/-- The prefill stages that were popped and then those that are queued. -/
def QueueState.stages (s : QueueState) : List (ℕ × Stage) :=
  s.popped.map (fun e => (e.2.1, e.2.2.stage)) ++
    s.queues.prefillMetadataQueue.map PrefillEntry.stage

/-- The stages of a request that the edge is to execute. -/
def IsScheduleOf (cfg : Config) (request : ℕ × ExecuteRequest) (stages : List (ℕ × Stage)) : Prop :=
  ∃ chunks, chunksOf cfg request.2 = some chunks ∧ CompleteStages request.1 chunks stages

/-- What was popped and what is queued are complete requests, the stages of each in order, and each
stage was popped for what it is. -/
structure Scheduled (cfg : Config) (requests : List (ℕ × ExecuteRequest)) (s : QueueState) :
    Prop where
  interleaves : Interleaves (IsScheduleOf cfg) requests s.stages
  popped_first : ∀ e ∈ s.popped, e.1 = .doPrefillFirst ↔ e.2.2.stage.layers = (0, 0)
  popped_last : ∀ e ∈ s.popped, e.1 = .doPrefillLast ↔ e.2.2.stage.layers = (1, 1)

theorem Scheduled.layers {cfg : Config} {requests : List (ℕ × ExecuteRequest)} {s : QueueState}
    (h : Scheduled cfg requests s) {e : ℕ × Stage} (he : e ∈ s.stages) :
    e.2.layers = (0, 0) ∨ e.2.layers = (1, 1) := by
  obtain ⟨request, -, part, ⟨chunks, -, hcomplete⟩, he⟩ := h.interleaves.exists_part he
  rcases (hcomplete.staged.shuffle.mem_iff e).mp he with he | he
  · exact .inl (layers_of_mem_firstStages (List.mem_of_mem_take he)).1
  · exact .inr (layers_of_mem_lastStages (List.mem_of_mem_take he))

namespace Scheduled

variable {cfg : Config} {requests : List (ℕ × ExecuteRequest)} {s : QueueState}

theorem prepare (h : Scheduled cfg requests s) (hfit : cfg.Fits) (requestKey : ℕ)
    {request : ExecuteRequest} (hown : HasOwnChunks cfg request) :
    ∃ s', s.step cfg (.prepare requestKey request) = some s' ∧
      Scheduled cfg (requests ++ [(requestKey, request)]) s' := by
  obtain ⟨queue, chunks, own, hqueue, hchunks, hcomplete, hshuffle, -⟩ :=
    prepareQueue_complete hfit hown s.queues.prefillMetadataQueue requestKey
  refine ⟨⟨{ s.queues with prefillMetadataQueue := queue }, s.popped⟩, ?_, ?_, h.popped_first,
    h.popped_last⟩
  · rw [QueueState.step, hqueue]
    rfl
  · exact .snoc h.interleaves ⟨chunks, hchunks, hcomplete⟩ ((Shuffle.only_left _).append hshuffle)

/-- Nothing about the prefill stages changes. -/
theorem frame (h : Scheduled cfg requests s) (queues : Queues)
    (hqueues : queues.prefillMetadataQueue = s.queues.prefillMetadataQueue) :
    Scheduled cfg requests ⟨queues, s.popped⟩ where
  interleaves := by simpa [QueueState.stages, hqueues] using h.interleaves
  popped_first := h.popped_first
  popped_last := h.popped_last

/-- The first entry of the prefill queue is popped. -/
theorem pop (h : Scheduled cfg requests s) {entry : PrefillEntry} {rest : List PrefillEntry}
    (hqueue : s.queues.prefillMetadataQueue = entry :: rest) {decision : DecisionType}
    (hfirst : decision = .doPrefillFirst ↔ entry.2.1.stage.layers = (0, 0))
    (hlast : decision = .doPrefillLast ↔ entry.2.1.stage.layers = (1, 1)) :
    Scheduled cfg requests ⟨{ s.queues with prefillMetadataQueue := rest },
      s.popped ++ [(decision, entry.1, entry.2.1)]⟩ where
  interleaves := by simpa [QueueState.stages, hqueue, PrefillEntry.stage] using h.interleaves
  popped_first e he := by
    rcases List.mem_append.mp he with he | he
    · exact h.popped_first e he
    · obtain rfl := List.mem_singleton.mp he
      exact hfirst
  popped_last e he := by
    rcases List.mem_append.mp he with he | he
    · exact h.popped_last e he
    · obtain rfl := List.mem_singleton.mp he
      exact hlast

theorem exec (h : Scheduled cfg requests s) (sig : Signals) :
    ∃ s', s.step cfg (.exec sig) = some s' ∧ Scheduled cfg requests s' := by
  rw [QueueState.step]
  cases hd : calcDecisionType sig s.queues with
  | doPrefillFirst =>
    obtain ⟨entry, rest, hqueue, hstart⟩ :=
      ne_nil_of_isFirstStage (isFirstStage_of_doPrefillFirst hd)
    rw [arrangeExecStage, hqueue]
    have hmem : PrefillEntry.stage entry ∈ s.stages := by simp [QueueState.stages, hqueue]
    have hlayers : entry.2.1.stage.layers = (0, 0) := (h.layers hmem).resolve_right fun hl => by
      simp [PrefillEntry.stage, LwdMetadata.stage, hstart] at hl
    exact ⟨_, rfl, h.pop hqueue (by simp [hlayers]) (by simp [hlayers])⟩
  | doPrefillLast =>
    obtain ⟨entry, rest, hqueue, hend⟩ := ne_nil_of_isLastStage (isLastStage_of_doPrefillLast hd)
    rw [arrangeExecStage, hqueue]
    have hmem : PrefillEntry.stage entry ∈ s.stages := by simp [QueueState.stages, hqueue]
    have hlayers : entry.2.1.stage.layers = (1, 1) := (h.layers hmem).resolve_left fun hl => by
      simp [PrefillEntry.stage, LwdMetadata.stage, hend] at hl
    exact ⟨_, rfl, h.pop hqueue (by simp [hlayers]) (by simp [hlayers])⟩
  | doDecodeFirst =>
    obtain ⟨entry, rest, hqueue, -⟩ := ne_nil_of_isFirstStage (isFirstStage_of_doDecodeFirst hd)
    rw [arrangeExecStage, hqueue]
    refine ⟨_, rfl, ?_⟩
    simpa [isPrefillDecision] using h.frame { s.queues with decodeMetadataQueue := rest } rfl
  | doDecodeLast =>
    obtain ⟨entry, rest, hqueue, -⟩ := ne_nil_of_isLastStage (isLastStage_of_doDecodeLast hd)
    rw [arrangeExecStage, hqueue]
    refine ⟨_, rfl, ?_⟩
    simpa [isPrefillDecision] using h.frame { s.queues with decodeMetadataQueue := rest } rfl
  | doNothing | doPrefill | doDecode | doCleanUp | doCleanEos | waitComm | waitDecode =>
    refine ⟨_, rfl, ?_⟩
    simpa [isPrefillDecision] using h.frame s.queues rfl

theorem step (h : Scheduled cfg requests s) (hfit : cfg.Fits) {op : QueueOp}
    (hown : ∀ requestKey request, op = .prepare requestKey request → HasOwnChunks cfg request) :
    ∃ s', s.step cfg op = some s' ∧ Scheduled cfg (requests ++ prepared [op]) s' := by
  cases op with
  | prepare requestKey request => exact h.prepare hfit requestKey (hown requestKey request rfl)
  | prepareDecode requestKey =>
    refine ⟨_, rfl, ?_⟩
    simpa [prepared] using h.frame { s.queues with
      decodeMetadataQueue := prepareDecodeRequest s.queues.decodeMetadataQueue requestKey } rfl
  | exec sig =>
    obtain ⟨s', hs', h'⟩ := h.exec sig
    exact ⟨s', hs', by simpa [prepared] using h'⟩

theorem run (h : Scheduled cfg requests s) (hfit : cfg.Fits) {ops : List QueueOp}
    (hown : ∀ request ∈ prepared ops, HasOwnChunks cfg request.2) :
    ∃ s', Layerwise.run cfg s ops = some s' ∧ Scheduled cfg (requests ++ prepared ops) s' := by
  induction ops generalizing requests s with
  | nil => exact ⟨s, rfl, by simpa [prepared] using h⟩
  | cons op ops ih =>
    have hsplit : prepared (op :: ops) = prepared [op] ++ prepared ops := by
      rw [← List.singleton_append]
      exact List.filterMap_append
    rw [hsplit] at hown ⊢
    have hop : ∀ requestKey request, op = .prepare requestKey request →
        HasOwnChunks cfg request := fun requestKey request hop =>
      hown (requestKey, request) (List.mem_append_left _ (by simp [hop, prepared]))
    obtain ⟨s₁, hs₁, h₁⟩ := h.step hfit hop
    obtain ⟨s', hs', h'⟩ := ih h₁ fun request hr => hown request (List.mem_append_right _ hr)
    refine ⟨s', ?_, by rwa [← List.append_assoc]⟩
    rw [Layerwise.run, List.foldlM_cons, hs₁]
    exact hs'

end Scheduled

theorem scheduled_start (cfg : Config) : Scheduled cfg [] {} :=
  ⟨.nil, by simp, by simp⟩

/-- **The prefill queue of the edge is complete and ordered.** In every run of requests and
decisions, if each long request has chunks of its own at this rank, no request fails to be prepared,
and what was popped and what is still queued interleaves the stages of the requests: the first stage
of each chunk and the last stage of each chunk once, in order and in step, with one end mark, on the
last of all. -/
theorem run_complete {cfg : Config} (hfit : cfg.Fits) (ops : List QueueOp)
    (hown : ∀ request ∈ prepared ops, HasOwnChunks cfg request.2) :
    ∃ s, run cfg {} ops = some s ∧ Scheduled cfg (prepared ops) s :=
  (scheduled_start cfg).run hfit hown

/-- A rank with the cut in two chunks that is the default. -/
def twoChunkConfig (currDpRank : ℕ) : Config :=
  ⟨0, currDpRank, 1, 7500, fun len _ => some (splitLongSeqByChunkNum len 2)⟩

theorem fits_twoChunkConfig (currDpRank : ℕ) : (twoChunkConfig currDpRank).Fits := fun len hlen =>
  have hle : 2 ≤ len := by
    change 7500 < 2 * len at hlen
    omega
  ⟨_, _, rfl, rfl, fitTogether_splitLongSeqByChunkNum Nat.two_pos Nat.two_pos hle hle⟩

/-- Eight thousand tokens at one data-parallel rank, five at another. -/
def unevenRequest : ExecuteRequest := ⟨[0, 1], [[8000], [5]], by decide⟩

def shortRequest : ExecuteRequest := ⟨[0], [[20]], by decide⟩

/-- A long request, a short one and a decode, with decisions between them. -/
def mixedOps : List QueueOp :=
  [.prepare 0 unevenRequest, .exec ⟨true, true, false, false, false⟩, .prepare 1 shortRequest,
    .prepareDecode 0, .exec ⟨true, true, false, false, false⟩,
    .exec ⟨true, true, false, false, false⟩, .prepare 2 unevenRequest]

theorem run_complete_mixed :
    ∃ s, run (twoChunkConfig 0) {} mixedOps = some s ∧
      Scheduled (twoChunkConfig 0) (prepared mixedOps) s :=
  run_complete (fits_twoChunkConfig 0) mixedOps (by decide)

/-- At the rank with five tokens the request cannot be prepared. -/
theorem not_run_complete :
    ¬∀ ops, ∃ s, run (twoChunkConfig 1) {} ops = some s ∧
      Scheduled (twoChunkConfig 1) (prepared ops) s := by
  intro h
  obtain ⟨s, hs, -⟩ := h [.prepare 0 unevenRequest]
  have hnone : run (twoChunkConfig 1) {} [.prepare 0 unevenRequest] = none := by decide +kernel
  rw [hnone] at hs
  cases hs

end MindieLLM.Layerwise
