import MindieLLM.BlockManager.PrefixCacheRuns

/-!
# Which cached blocks count as computed

Contents are computed once `markBlocksAsComputed` has been called while they were in a block. The
allocator reports an id in use by its flag and an id in the evictor as computed without further
ado, so the reports are right as long as no id reaches the evictor between the promotion of its
contents and the next mark.

## Main definitions

* `MarkedInRun c₀ ops h b`: some call to `markBlocksAsComputed` in the run found `h` registered
  for `b`, and it has been ever since
* `Untouched`: the id is not waiting for a mark
* `ComputedMarked`: the flags and the evictor agree with the marks

## Main results

* `ComputedMarked.idSteps`: moves of ids keep the agreement
* `marked_of_computed`: in a safe run what is reported as computed has been marked
-/

namespace MindieLLM.PrefixCacheBlockAllocator

open Program

variable {HashValue : Type} [PrefixHasher HashValue] [DecidableEq HashValue]

/-- The id is not waiting for `markBlocksAsComputed`. -/
def Untouched (a : PrefixCacheBlockAllocator HashValue) (b : BlockId) : Prop :=
  b ∉ a.touchedBlocks

/-- At some call to `markBlocksAsComputed` in the run the hash `h` was registered for `b`, and it
has been in every state since. -/
def MarkedInRun (c₀ : Client HashValue) (ops : List (Op HashValue)) (h : HashValue)
    (b : BlockId) : Prop :=
  ∃ before after, ops = before ++ .markBlocksAsComputed :: after ∧
    ∀ k, before.length ≤ k → k ≤ ops.length →
      ∃ c, run c₀ (ops.take k) = some c ∧ c.world.alloc.cachedBlocks h = some b

/-- Touched ids are in use and registered. What is registered is touched or has been marked, and
an id in use that is flagged has been marked. -/
structure ComputedMarked (Marked : HashValue → BlockId → Prop)
    (a : PrefixCacheBlockAllocator HashValue) (own : Multiset BlockId) : Prop where
  touched : ∀ b ∈ a.touchedBlocks, b ∈ own ∧ ∃ h, a.cachedBlocks h = some b
  cached : ∀ h b, a.cachedBlocks h = some b → b ∈ a.touchedBlocks ∨ Marked h b
  computed : ∀ b ∈ own, (a.blockComputedAttr.blockInfos b).computed = true →
    ∃ h, a.cachedBlocks h = some b ∧ Marked h b

namespace ComputedMarked

variable {Marked : HashValue → BlockId → Prop} {a : PrefixCacheBlockAllocator HashValue}
  {own own' : Multiset BlockId} {b : BlockId}

omit [PrefixHasher HashValue] [DecidableEq HashValue] in
/-- The flags of one id change. -/
theorem computed_updateInfo (h : ComputedMarked Marked a own) {i : BlockInfo}
    (hown : ∀ c, c ≠ b → c ∈ own' → c ∈ own)
    (hi : b ∈ own' → i.computed = true → ∃ k, a.cachedBlocks k = some b ∧ Marked k b)
    {c : BlockId} (hc : c ∈ own')
    (hcomp : ((a.blockComputedAttr.updateInfo b fun _ => i).blockInfos c).computed = true) :
    ∃ k, a.cachedBlocks k = some c ∧ Marked k c := by
  rw [BlockComputedAttr.updateInfo_blockInfos] at hcomp
  split at hcomp
  · rename_i hcb
    subst hcb
    exact hi hc hcomp
  · rename_i hcb
    exact h.computed c (hown c hcb hc) hcomp

/-- Moves of ids, as long as the last use of a touched id is not given up. -/
theorem idStep {l l' : Ledger HashValue} (h : ComputedMarked Marked l.1 l.2)
    (hcons : Consistent l.1 l.2) (hstep : IdStep Untouched l l') :
    ComputedMarked Marked l'.1 l'.2 := by
  cases hstep with
  | @claimFree a own b rest hfree =>
    refine ⟨fun c hc => ?_, h.cached, fun c hc hcomp => ?_⟩
    · exact ⟨Multiset.mem_cons_of_mem (h.touched c hc).1, (h.touched c hc).2⟩
    · exact h.computed_updateInfo (fun c hcb hc => (Multiset.mem_cons.mp hc).resolve_left hcb)
        (fun _ hfalse => by cases hfalse) hc hcomp
  | @claimEvicted a own b key e hfree hev =>
    obtain ⟨d, hd, rfl⟩ := hev.1
    obtain ⟨-, hown, hreg⟩ := hcons.evictor b d hd
    dsimp only at hown hreg
    -- only the contents of `b` are forgotten
    have hkeep : ∀ c ∈ own, ∀ k, a.cachedBlocks k = some c →
        (a.claimEvicted b d.prefixHash e).cachedBlocks k = some c := by
      intro c hc k hk
      change Function.update a.cachedBlocks d.prefixHash none k = some c
      rw [Function.update_of_ne, hk]
      rintro rfl
      rw [hreg, Option.some.injEq] at hk
      exact hown (hk ▸ hc)
    refine ⟨fun c hc => ?_, fun k c hk => ?_, fun c hc hcomp => ?_⟩
    · obtain ⟨hcown, k, hk⟩ := h.touched c hc
      exact ⟨Multiset.mem_cons_of_mem hcown, k, hkeep c hcown k hk⟩
    · change Function.update a.cachedBlocks d.prefixHash none k = some c at hk
      rw [Function.update_apply] at hk
      split at hk
      · cases hk
      · exact h.cached k c hk
    · obtain rfl | hcb := eq_or_ne c b
      · change ((a.blockComputedAttr.updateInfo c fun _ => { active := true }).blockInfos
          c).computed = true at hcomp
        rw [BlockComputedAttr.updateInfo_blockInfos, if_pos rfl] at hcomp
        cases hcomp
      · have hcown := (Multiset.mem_cons.mp hc).resolve_left hcb
        change ((a.blockComputedAttr.updateInfo b fun _ => { active := true }).blockInfos
          c).computed = true at hcomp
        rw [BlockComputedAttr.updateInfo_blockInfos, if_neg hcb] at hcomp
        obtain ⟨k, hk, hmarked⟩ := h.computed c hcown hcomp
        exact ⟨k, hkeep c hcown k hk, hmarked⟩
  | @share a own b hb hown =>
    refine ⟨fun c hc => ?_, h.cached, fun c hc hcomp => ?_⟩
    · exact ⟨Multiset.mem_cons_of_mem (h.touched c hc).1, (h.touched c hc).2⟩
    · exact h.computed c ((Multiset.mem_cons.mp hc).elim (fun heq => heq ▸ hown) id) hcomp
  | @drop a own b hb hown =>
    refine ⟨fun c hc => ?_, h.cached, fun c hc => h.computed c (Multiset.mem_cons_of_mem hc)⟩
    obtain ⟨hcown, hreg⟩ := h.touched c hc
    exact ⟨(Multiset.mem_cons.mp hcown).elim (fun heq => heq ▸ hown) id, hreg⟩
  | @releaseFree a own b hb hown hreg =>
    refine ⟨fun c hc => ?_, h.cached, fun c hc hcomp => ?_⟩
    · obtain ⟨hcown, k, hk⟩ := h.touched c hc
      have hcb : c ≠ b := fun heq => hreg k (heq ▸ hk)
      exact ⟨(Multiset.mem_cons.mp hcown).resolve_left hcb, k, hk⟩
    · exact h.computed_updateInfo (fun c _ hc => Multiset.mem_cons_of_mem hc)
        (fun _ hfalse => by cases hfalse) hc hcomp
  | @releaseCached a own b key numTokens hown hreg hR =>
    refine ⟨fun c hc => ?_, h.cached, fun c hc hcomp => ?_⟩
    · obtain ⟨hcown, k, hk⟩ := h.touched c hc
      have hcb : c ≠ b := fun heq => hR (heq ▸ hc)
      exact ⟨(Multiset.mem_cons.mp hcown).resolve_left hcb, k, hk⟩
    · exact h.computed_updateInfo (fun c _ hc => Multiset.mem_cons_of_mem hc)
        (fun _ hfalse => by cases hfalse) hc hcomp
  | @revive a own b key hown hreg =>
    refine ⟨fun c hc => ?_, h.cached, fun c hc hcomp => ?_⟩
    · exact ⟨Multiset.mem_cons_of_mem (h.touched c hc).1, (h.touched c hc).2⟩
    · refine h.computed_updateInfo (fun c hcb hc => (Multiset.mem_cons.mp hc).resolve_left hcb)
        (fun _ _ => ⟨key, hreg, ?_⟩) hc hcomp
      exact (h.cached key b hreg).resolve_left fun htouched => hown (h.touched b htouched).1
  | @register a own b key hown hb hreg hkey hvalid =>
    have hbown : b ∈ own := Multiset.count_pos.mp (by rw [hown]; exact Nat.one_pos)
    have hkeep : ∀ c k, a.cachedBlocks k = some c →
        (a.register b key).cachedBlocks k = some c := by
      intro c k hk
      change Function.update a.cachedBlocks key (some b) k = some c
      rw [Function.update_of_ne, hk]
      rintro rfl
      rw [hkey] at hk
      cases hk
    refine ⟨fun c hc => ?_, fun k c hk => ?_, fun c hc hcomp => ?_⟩
    · rcases List.mem_insert_iff.mp hc with rfl | hc
      · refine ⟨hbown, key, ?_⟩
        change Function.update a.cachedBlocks key (some c) key = some c
        rw [Function.update_self]
      · obtain ⟨hcown, k, hk⟩ := h.touched c hc
        exact ⟨hcown, k, hkeep c k hk⟩
    · change Function.update a.cachedBlocks key (some b) k = some c at hk
      rw [Function.update_apply] at hk
      split at hk
      · rw [Option.some.injEq] at hk
        exact .inl (List.mem_insert_iff.mpr (.inl hk.symm))
      · exact (h.cached k c hk).imp (fun hc => List.mem_insert_iff.mpr (.inr hc)) id
    · obtain ⟨k, hk, hmarked⟩ := h.computed c hc hcomp
      exact ⟨k, hkeep c k hk, hmarked⟩
  | note => exact ⟨h.1, h.2, h.3⟩

theorem idSteps {l l' : Ledger HashValue} (h : ComputedMarked Marked l.1 l.2)
    (hcons : Consistent l.1 l.2) (hsteps : IdSteps Untouched l l') :
    ComputedMarked Marked l'.1 l'.2 := by
  induction hsteps with
  | refl => exact h
  | tail hsteps hstep ih => exact ih.idStep (hcons.idSteps hsteps) hstep

section

omit [PrefixHasher HashValue] [DecidableEq HashValue]

/-- Marks that concern contents still registered are the only ones that count. -/
theorem mono {Marked' : HashValue → BlockId → Prop} (h : ComputedMarked Marked a own)
    (hmono : ∀ k c, a.cachedBlocks k = some c → Marked k c → Marked' k c) :
    ComputedMarked Marked' a own where
  touched := h.touched
  cached k c hk := (h.cached k c hk).imp id (hmono k c hk)
  computed c hc hcomp := by
    obtain ⟨k, hk, hmarked⟩ := h.computed c hc hcomp
    exact ⟨k, hk, hmono k c hk hmarked⟩

/-- `MarkBlocksAsComputed` marks everything that is registered. -/
theorem marked (h : ComputedMarked Marked a own) :
    ComputedMarked (fun k c => a.cachedBlocks k = some c) a.marked own := by
  refine ⟨fun c hc => absurd hc List.not_mem_nil, fun k c hk => .inr hk, fun c hc hcomp => ?_⟩
  change ∃ k, a.cachedBlocks k = some c ∧ a.cachedBlocks k = some c
  simp only [and_self]
  by_cases htouched : c ∈ a.touchedBlocks
  · exact (h.touched c htouched).2
  · rw [PrefixCacheBlockAllocator.marked, markComputed] at hcomp
    simp only [htouched, if_false] at hcomp
    obtain ⟨k, hk, -⟩ := h.computed c hc hcomp
    exact ⟨k, hk⟩

theorem new (beginBlockId : BlockId) (numBlocks blockSize : Nat) :
    ComputedMarked Marked
      (.new beginBlockId numBlocks blockSize : PrefixCacheBlockAllocator HashValue) 0 where
  touched := by simp [PrefixCacheBlockAllocator.new]
  cached := by simp [PrefixCacheBlockAllocator.new]
  computed := by simp

end

end ComputedMarked

/-! ## Safe runs -/

theorem run_append (c : Client HashValue) (ops ops' : List (Op HashValue)) :
    run c (ops ++ ops') = (run c ops).bind fun c' => run c' ops' := by
  induction ops generalizing c with
  | nil => rfl
  | cons op ops ih =>
    simp only [List.cons_append, run]
    cases step c op with
    | none => rfl
    | some c₁ => exact ih c₁

theorem SafeRun.run_eq {R : PrefixCacheBlockAllocator HashValue → BlockId → Prop}
    {c c' : Client HashValue} {ops : List (Op HashValue)} (h : SafeRun R c ops c') :
    run c ops = some c' := by
  induction h with
  | nil => rfl
  | snoc _ _ hstep ih => rw [run_append, ih, Option.bind_some, run, hstep]; rfl

/-- Contents that stay registered stay marked. -/
theorem MarkedInRun.snoc {c₀ c₂ : Client HashValue} {ops : List (Op HashValue)}
    {op : Op HashValue} {h : HashValue} {b : BlockId} (hmarked : MarkedInRun c₀ ops h b)
    (hrun : run c₀ (ops ++ [op]) = some c₂) (hreg : c₂.world.alloc.cachedBlocks h = some b) :
    MarkedInRun c₀ (ops ++ [op]) h b := by
  obtain ⟨before, after, rfl, hall⟩ := hmarked
  refine ⟨before, after ++ [op], by simp, fun k hk hk' => ?_⟩
  rcases Nat.lt_or_ge k (before ++ Op.markBlocksAsComputed :: after ++ [op]).length with hlt | hge
  · have hle : k ≤ (before ++ Op.markBlocksAsComputed :: after).length := by
      rw [List.length_append, List.length_singleton] at hlt
      exact Nat.lt_succ_iff.mp hlt
    rw [List.take_append_of_le_length hle]
    exact hall k hk hle
  · rw [List.take_of_length_le hge]
    exact ⟨c₂, hrun, hreg⟩

/-- What is registered when `MarkBlocksAsComputed` is called is marked. -/
theorem MarkedInRun.of_mark {c₀ c₁ c₂ : Client HashValue} {ops : List (Op HashValue)}
    {h : HashValue} {b : BlockId} (hrun : run c₀ ops = some c₁)
    (hrun' : run c₀ (ops ++ [.markBlocksAsComputed]) = some c₂)
    (hreg : c₁.world.alloc.cachedBlocks h = some b)
    (hreg' : c₂.world.alloc.cachedBlocks h = some b) :
    MarkedInRun c₀ (ops ++ [.markBlocksAsComputed]) h b := by
  refine ⟨ops, [], rfl, fun k hk hk' => ?_⟩
  rw [List.length_append, List.length_singleton] at hk'
  obtain rfl | rfl : k = ops.length ∨ k = ops.length + 1 := by omega
  · rw [List.take_left]
    exact ⟨c₁, hrun, hreg⟩
  · rw [List.take_of_length_le (by simp)]
    exact ⟨c₂, hrun', hreg'⟩

theorem SafeRun.computedMarked {beginBlockId : BlockId} (hbegin : 0 ≤ beginBlockId)
    {numBlocks blockSize poolSize : Nat} {ops : List (Op HashValue)} {c : Client HashValue}
    (hrun : SafeRun Untouched (.new beginBlockId numBlocks blockSize poolSize) ops c) :
    ComputedMarked (MarkedInRun (.new beginBlockId numBlocks blockSize poolSize) ops)
      c.world.alloc (carried c.world.mem c.live) := by
  have hnew := @Tidy.new HashValue _ _ hbegin numBlocks blockSize poolSize
  generalize hc₀ : (Client.new beginBlockId numBlocks blockSize poolSize : Client HashValue) = c₀
    at *
  induction hrun with
  | nil => subst hc₀; exact .new beginBlockId numBlocks blockSize
  | @snoc ops c₁ op c₂ hrun hsafe hstep ih =>
    subst hc₀
    have htidy := hrun.tidy hnew
    have hrun₂ := (hrun.snoc hsafe hstep).run_eq
    rcases step_cases htidy hsafe hstep with ⟨-, hmoved⟩ | ⟨rfl, rfl⟩
    · refine (ih.idSteps htidy.consistent hmoved.steps).mono fun k b hreg hmarked => ?_
      exact hmarked.snoc hrun₂ hreg
    · refine ih.marked.mono fun k b hreg hreg₁ => ?_
      exact .of_mark hrun.run_eq hrun₂ hreg₁ hreg

/-! ## What the lookups report -/

section Lookups

variable {a : PrefixCacheBlockAllocator HashValue} {own : Multiset BlockId}
  {Marked : HashValue → BlockId → Prop}

omit [DecidableEq HashValue] in
theorem ComputedMarked.wp_isBlockComputed (h : ComputedMarked Marked a own)
    (hcons : Consistent a own) (b : BlockId) :
    wp (isBlockComputed b)
      (fun computed a' => a' = a ∧
        (computed = true → ∃ k, a.cachedBlocks k = some b ∧ Marked k b))
      (fun _ _ => True) a := by
  unfold isBlockComputed
  simp only [BlockComputedAttr.isActive, BlockComputedAttr.isComputed, wp_bind, wp_zoom,
    BlockComputedAttr.wp_isValidBlockId, wp_get, wp_pure, attrLens_get, attrLens_put]
  refine ⟨fun hv => ?_, fun _ => trivial⟩
  have hb := hcons.valid_iff.mp hv
  rw [wp_ite]
  refine ⟨fun hactive => ?_, fun _ => ?_⟩
  · simp only [wp_zoom, wp_bind, BlockComputedAttr.wp_isValidBlockId, wp_get, wp_pure,
      attrLens_get, attrLens_put]
    exact ⟨fun _ => ⟨trivial, h.computed b ((hcons.active b hb).mp hactive)⟩, fun _ => trivial⟩
  · simp only [wp_bind, wp_get, wp_pure]
    refine ⟨trivial, fun hcontains => ?_⟩
    obtain ⟨d, hd⟩ := Option.isSome_iff_exists.mp hcontains
    obtain ⟨-, hown, hreg⟩ := hcons.evictor b d hd
    refine ⟨d.prefixHash, hreg, ?_⟩
    exact (h.cached _ b hreg).resolve_left fun htouched => hown (h.touched b htouched).1

omit [DecidableEq HashValue] in
/-- A cached hash whose block is computed. -/
theorem ComputedMarked.wp_isBlockComputed_of_cached (h : ComputedMarked Marked a own)
    (hcons : Consistent a own) {b : BlockId} {key : HashValue}
    (hreg : a.cachedBlocks key = some b) :
    wp (isBlockComputed b) (fun computed a' => a' = a ∧ (computed = true → Marked key b))
      (fun _ _ => True) a := by
  refine wp_mono (h.wp_isBlockComputed hcons b) ?_ fun _ _ h => h
  rintro computed _ ⟨rfl, hcomp⟩
  refine ⟨rfl, fun hc => ?_⟩
  obtain ⟨k, hk, hmarked⟩ := hcomp hc
  rwa [hcons.cached_inj _ _ b hreg hk]

theorem ComputedMarked.wp_findCachedBlockPrefix (h : ComputedMarked Marked a own)
    (hcons : Consistent a own) (key : HashValue) :
    wp (findCachedBlockPrefix key)
      (fun found _ => found = true → ∃ b, a.cachedBlocks key = some b ∧ Marked key b)
      (fun _ _ => True) a := by
  unfold findCachedBlockPrefix
  rw [wp_ite]
  refine ⟨fun _ hfalse => (by cases hfalse), fun _ => ?_⟩
  simp only [wp_bind, wp_get]
  cases hreg : a.cachedBlocks key with
  | none => exact fun hfalse => by cases hfalse
  | some b =>
    refine wp_mono (h.wp_isBlockComputed_of_cached hcons hreg) ?_ fun _ _ h => h
    exact fun found _ hfound hc => ⟨b, rfl, hfound.2 hc⟩

omit [DecidableEq HashValue] in
theorem ComputedMarked.wp_findCachedBlocksPrefix (h : ComputedMarked Marked a own)
    (hcons : Consistent a own) (keys : List HashValue) :
    wp (findCachedBlocksPrefix keys)
      (fun bs _ => List.Forall₂ (fun key b => a.cachedBlocks key = some b ∧ Marked key b)
        (keys.take bs.length) bs)
      (fun _ _ => True) a := by
  induction keys with
  | nil => exact .nil
  | cons key keys ih =>
    unfold findCachedBlocksPrefix isBlockCached
    simp only [wp_bind, wp_get]
    cases hreg : a.cachedBlocks key with
    | none =>
      simp only [wp_pure, Bool.false_eq_true, if_false]
      exact .nil
    | some b =>
      refine wp_mono (h.wp_isBlockComputed_of_cached hcons hreg) ?_ fun _ _ h => h
      rintro computed _ ⟨rfl, hcomp⟩
      rw [wp_ite]
      refine ⟨fun hc => ?_, fun _ => .nil⟩
      simp only [hreg, wp_bind, wp_get, wp_pure]
      exact wp_mono ih (fun bs _ hbs => .cons ⟨hreg, hcomp hc⟩ hbs) fun _ _ h => h

end Lookups

/-- **Computed flags follow contents.** In a run in which no touched id gives up its last use,
and every id that does can be released, a block or hash that is reported as computed holds contents
that were registered at some call to `MarkBlocksAsComputed` and have stayed registered since. -/
theorem marked_of_computed {beginBlockId : BlockId} (hbegin : 0 ≤ beginBlockId)
    {numBlocks blockSize poolSize : Nat} {ops : List (Op HashValue)} {c : Client HashValue}
    (hrun : SafeRun Untouched (.new beginBlockId numBlocks blockSize poolSize) ops c) :
    (∀ b a', isBlockComputed b c.world.alloc = .ok true a' →
      ∃ key, MarkedInRun (.new beginBlockId numBlocks blockSize poolSize) ops key b) ∧
    (∀ key a', findCachedBlockPrefix key c.world.alloc = .ok true a' →
      ∃ b, c.world.alloc.cachedBlocks key = some b ∧
        MarkedInRun (.new beginBlockId numBlocks blockSize poolSize) ops key b) ∧
    ∀ keys bs a', findCachedBlocksPrefix keys c.world.alloc = .ok bs a' →
      List.Forall₂ (fun key b => c.world.alloc.cachedBlocks key = some b ∧
        MarkedInRun (.new beginBlockId numBlocks blockSize poolSize) ops key b)
        (keys.take bs.length) bs := by
  have hcons := (hrun.tidy (.new hbegin numBlocks blockSize poolSize)).consistent
  have hcomp := hrun.computedMarked hbegin
  refine ⟨fun b a' hok => ?_, fun key a' hok => ?_, fun keys bs a' hok => ?_⟩
  · obtain ⟨key, -, hmarked⟩ := (wp_ok (hcomp.wp_isBlockComputed hcons b) hok).2 rfl
    exact ⟨key, hmarked⟩
  · exact wp_ok (hcomp.wp_findCachedBlockPrefix hcons key) hok rfl
  · have hfound := wp_ok (hcomp.wp_findCachedBlocksPrefix hcons keys) hok
    exact hfound

/-- A full block is allocated and marked, and reported as computed. -/
theorem computed_after_mark :
    ∃ (c : Client UInt64) (key : UInt64),
      SafeRun Untouched (.new 0 2 2 4)
        [.allocateImmutableBlock [1, 2] none 0, .markBlocksAsComputed] c ∧
      MarkedInRun (.new 0 2 2 4)
        [.allocateImmutableBlock [1, 2] none 0, .markBlocksAsComputed] key 0 := by
  let alloc : Op UInt64 := .allocateImmutableBlock [1, 2] none 0
  let mark : Op UInt64 := .markBlocksAsComputed
  obtain ⟨c₁, h₁⟩ : ∃ c₁, step (.new 0 2 2 4) alloc = some c₁ :=
    Option.isSome_iff_exists.mp (by decide +kernel)
  obtain ⟨c₂, h₂⟩ : ∃ c₂, step c₁ mark = some c₂ := by
    have : ((step (.new 0 2 2 4) alloc).bind fun c => step c mark).isSome := by decide +kernel
    rw [h₁] at this
    exact Option.isSome_iff_exists.mp this
  have hfirst : SafeRun Untouched (.new 0 2 2 4) [alloc] c₁ := .snoc (.nil _) trivial h₁
  have hrun : SafeRun Untouched (.new 0 2 2 4) [alloc, mark] c₂ := hfirst.snoc trivial h₂
  have hcomp : ((run (.new 0 2 2 4) [alloc, mark]).bind fun c =>
      valueOf (isBlockComputed 0) c.world.alloc) = some true := by decide +kernel
  rw [hrun.run_eq, Option.bind_some, valueOf_eq_some_iff] at hcomp
  obtain ⟨a', hok⟩ := hcomp
  obtain ⟨key, hmarked⟩ := (marked_of_computed le_rfl hrun).1 0 a' hok
  exact ⟨c₂, key, hrun, hmarked⟩

/-- A full block that is freed before any mark waits in the evictor, and counts as computed. -/
theorem computed_unmarked :
    ∃ (ops : List (Op UInt64)) (c : Client UInt64) (b : BlockId), run (.new 0 2 2 4) ops = some c ∧
      (∃ a', isBlockComputed b c.world.alloc = .ok true a') ∧
      ∀ key, ¬MarkedInRun (.new 0 2 2 4) ops key b := by
  let ops : List (Op UInt64) := [.allocateImmutableBlock [1, 2] none 0, .free 3 false]
  obtain ⟨c, hrun⟩ : ∃ c, run (.new 0 2 2 4) ops = some c :=
    Option.isSome_iff_exists.mp (by decide +kernel)
  have hcomp : ((run (.new 0 2 2 4) ops).bind fun c =>
      valueOf (isBlockComputed 0) c.world.alloc) = some true := by decide +kernel
  rw [hrun, Option.bind_some, valueOf_eq_some_iff] at hcomp
  refine ⟨ops, c, 0, hrun, hcomp, ?_⟩
  rintro key ⟨before, after, heq, -⟩
  have hmem : Op.markBlocksAsComputed ∈ ops := by simp [heq]
  simp [ops] at hmem

end MindieLLM.PrefixCacheBlockAllocator
