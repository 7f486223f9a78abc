import MindieLLM.BlockManager.RankedBlockIds
import MindieLLM.BlockManager.SmallRankFirstPlaced
import MindieLLM.Program.Reaches

/-!
# The block ids of a table over its runs

The blocks of a table with several ranks are listed by a prompt, by an update, and by the appends
that take new ones; appends and replaced placeholders write to them. The list of ids stays right in
a run whose writes all go to blocks that are aligned, and goes wrong in others.

## Main definitions

* `Listing`: a table and the order in which its blocks came into it
* `Action`, `step`: what happens to a table
* `allowed`, `aligned`: what can happen at all, and when the list stays right

## Main results

* `agrees_of_reaches`: the list has the id of each block as long as all blocks are aligned
* `not_agrees_promoted`: it has not if a block of rank 1 gets the id of a cached one
-/

namespace MindieLLM

open Program

namespace BlockTable

variable {HashValue A : Type} [BlockAllocator HashValue A] [LocalBlockAllocator HashValue A]
  {order : List Ptr} {s : TableWorld HashValue A}

/-! ## The operations -/

/-- The tokens of one call of `AppendToSpRank`. -/
def SegmentAligned (order : List Ptr) (r : ℕ) (tokens : List TokenId)
    (s : TableWorld HashValue A) : Prop :=
  AppendsAligned order r (s.table.numFullSlotsPerRank r) tokens s

theorem wp_appendToSpRank_agrees {r : ℕ} {tokens : List TokenId} (h : Agrees order s)
    (haligned : SegmentAligned order r tokens s) :
    wp (appendToSpRank r tokens)
      (fun _ s' => Agrees order s' ∧ s'.table.blockObjs = s.table.blockObjs ∧
        s'.table.rankSize = s.table.rankSize ∧ s'.table.currentSpRank = s.table.currentSpRank)
      (fun _ _ => True) s := by
  unfold appendToSpRank
  simp only [wp_bind, wp_get]
  refine wp_mono (wp_appendToSpRankLoop_agrees h haligned) ?_ fun _ _ h => h
  rintro _ s₁ ⟨h₁, hsame⟩
  exact ⟨h₁.setTable rfl rfl rfl, hsame.blockObjs, hsame.rankSize, hsame.currentSpRank⟩

/-- `AppendNewTokens` without lookahead slots up to the append: the rank of the token, with a block
that has room for it. -/
def lastTokenRank (extraHash : HashValue) : TableM HashValue A ℕ := do
  let numEmptySlots ← ofTable fun t => t.getNumEmptySlots t.currentSpRank
  let numEmptySlots ←
    if numEmptySlots = 0 then do
      modifyTable fun t => { t with currentSpRank := (t.currentSpRank + 1) % t.rankSize }
      ofTable fun t => t.getNumEmptySlots t.currentSpRank
    else pure numEmptySlots
  let currentSpRank := (← get).table.currentSpRank
  if numEmptySlots < 1 then
    growRank currentSpRank currentSpRank extraHash
  return currentSpRank

omit [LocalBlockAllocator HashValue A] in
theorem wp_appendLastToken {newTokenIds : List TokenId} {extraHash : HashValue}
    {Q : Unit → TableWorld HashValue A → Prop} {T : Exn → TableWorld HashValue A → Prop} :
    wp (appendLastToken newTokenIds extraHash) Q T s ↔
      wp (lastTokenRank extraHash)
        (fun r s' => wp (appendToSpRank r newTokenIds.getLast?.toList) Q T s') T s := by
  simp only [appendLastToken, lastTokenRank, wp_bind, wp_get, wp_ite, wp_pure]

theorem wp_lastTokenRank (h : Agrees order s) (extraHash : HashValue) :
    wp (lastTokenRank extraHash)
      (fun _ s' => Agrees (order ++ entered s.table s'.table) s') (fun _ _ => True) s := by
  unfold lastTokenRank
  rw [wp_bind]
  refine wp_getNumEmptySlots fun hcur numEmptySlots => ?_
  have hgrow : ∀ s₁ : TableWorld HashValue A, Agrees order s₁ →
      s₁.table.blockObjs = s.table.blockObjs → s₁.table.currentSpRank < s₁.table.rankSize →
      ∀ n : ℕ, wp (do
          let currentSpRank := (← get).table.currentSpRank
          if n < 1 then
            growRank currentSpRank currentSpRank extraHash
          return currentSpRank)
        (fun _ s' => Agrees (order ++ entered s.table s'.table) s') (fun _ _ => True) s₁ := by
    intro s₁ h₁ hobjs hr n
    simp only [wp_bind, wp_get]
    refine (wp_ite _ _ _).mpr ⟨fun _ => ?_, fun _ => ?_⟩
    · rw [wp_bind]
      refine wp_mono (wp_growRank h₁ hr extraHash) ?_ fun _ _ h => h
      rintro _ s₂ ⟨p, b, h₂, htable⟩
      have hext : Extended order s₁ s₁.table.currentSpRank [p] s₂ :=
        ⟨h₂, by rw [htable]; rfl, by rw [htable]; rfl⟩
      have hentered := hext.entered hr
      rw [entered, hobjs] at hentered
      rw [wp_pure, entered, hentered]
      exact h₂
    · exact h₁.of_same hobjs
  refine (wp_ite _ _ _).mpr ⟨fun _ => ?_, fun _ => ?_⟩
  · rw [wp_bind, modifyTable, wp_modify, wp_bind]
    refine wp_getNumEmptySlots fun hnext n => ?_
    refine hgrow _ ?_ ?_ hnext n
    · exact h.setTable rfl rfl rfl
    · rfl
  · exact hgrow s h rfl hcur numEmptySlots

/-- `AppendNewTokens` with lookahead slots up to the append: how many slots of the current rank are
empty, and the rank that the last tokens go to. -/
def reserveSlots (newTokenIds : List TokenId) (extraHash : HashValue) :
    TableM HashValue A (ℕ × ℕ) := do
  let t := (← get).table
  let numEmptySlots ← ofTable fun t => t.getNumEmptySlots t.currentSpRank
  modifyTable fun t => { t with isAppendBlock := false }
  let nextSpRank :=
    if newTokenIds.length > numEmptySlots then (t.currentSpRank + 1) % t.rankSize
    else t.currentSpRank
  if newTokenIds.length > numEmptySlots then
    let reservedSlots := newTokenIds.length - numEmptySlots
    let nextRankEmptySlots ← ofTable fun t => t.getNumEmptySlots nextSpRank
    if nextRankEmptySlots < reservedSlots then
      forM (List.range (ceilDiv reservedSlots t.blockSize)) fun _ =>
        growRank nextSpRank nextSpRank extraHash
      modifyTable fun t => { t with isAppendBlock := true, appendBlockRankId := nextSpRank }
  return (numEmptySlots, nextSpRank)

omit [LocalBlockAllocator HashValue A] in
theorem wp_appendWithLookahead {newTokenIds : List TokenId} {extraHash : HashValue}
    {Q : Unit → TableWorld HashValue A → Prop} {T : Exn → TableWorld HashValue A → Prop} :
    wp (appendWithLookahead newTokenIds extraHash) Q T s ↔
      wp (reserveSlots newTokenIds extraHash) (fun plan s' =>
        wp (do
          let tokenIds := newTokenIds.filter (· ≠ -1)
          if tokenIds.length > 0 then
            let segIndex := min plan.1 (tokenIds.length - 1)
            appendToSpRank s.table.currentSpRank (tokenIds.take segIndex)
            if plan.1 < tokenIds.length then
              modifyTable fun t => { t with currentSpRank := plan.2 }
            appendToSpRank (← get).table.currentSpRank (tokenIds.drop segIndex)) Q T s') T s := by
  simp only [appendWithLookahead, reserveSlots, wp_bind, wp_get, wp_ite, wp_pure]

theorem wp_reserveSlots (h : Agrees order s) (newTokenIds : List TokenId) (extraHash : HashValue) :
    wp (reserveSlots newTokenIds extraHash)
      (fun _ s' => Agrees (order ++ entered s.table s'.table) s') (fun _ _ => True) s := by
  unfold reserveSlots
  rw [wp_bind, wp_get, wp_bind]
  refine wp_getNumEmptySlots fun _ n => ?_
  rw [wp_bind, modifyTable, wp_modify]
  have h₁ : Agrees order { s with table := { s.table with isAppendBlock := false } } :=
    h.setTable rfl rfl rfl
  refine (wp_ite _ _ _).mpr ⟨fun _ => ?_, fun _ => h₁.of_same rfl⟩
  rw [wp_bind]
  refine wp_getNumEmptySlots fun hnext m => ?_
  refine (wp_ite _ _ _).mpr ⟨fun _ => ?_, fun _ => h₁.of_same rfl⟩
  rw [wp_bind]
  refine wp_mono (wp_growRanks h₁ hnext extraHash _) ?_ fun _ _ h => h
  rintro _ s₂ ⟨new, h₂⟩
  rw [wp_bind, modifyTable, wp_modify, wp_pure]
  have hentered := h₂.entered hnext
  change Agrees (order ++ entered s.table s₂.table) _
  change entered s.table s₂.table = new at hentered
  rw [hentered]
  exact h₂.agrees.setTable rfl rfl rfl

/-- When `AppendNewTokens` leaves the list of ids right: every token goes to a block that is aligned
then. -/
def AppendAligned (order : List Ptr) (newTokenIds : List TokenId) (extraHash : HashValue)
    (numLookaheadSlots : ℕ) (s : TableWorld HashValue A) : Prop :=
  if numLookaheadSlots = 0 then
    ∀ r s₁, lastTokenRank extraHash s = .ok r s₁ →
      SegmentAligned (order ++ entered s.table s₁.table) r newTokenIds.getLast?.toList s₁
  else
    ∀ numEmptySlots nextSpRank s₁,
      reserveSlots newTokenIds extraHash s = .ok (numEmptySlots, nextSpRank) s₁ →
      let order₁ := order ++ entered s.table s₁.table
      let tokenIds := newTokenIds.filter (· ≠ -1)
      let segIndex := min numEmptySlots (tokenIds.length - 1)
      SegmentAligned order₁ s.table.currentSpRank (tokenIds.take segIndex) s₁ ∧
      ∀ s₂, appendToSpRank s.table.currentSpRank (tokenIds.take segIndex) s₁ = .ok () s₂ →
        let t₃ := if numEmptySlots < tokenIds.length then
          { s₂.table with currentSpRank := nextSpRank } else s₂.table
        SegmentAligned order₁ t₃.currentSpRank (tokenIds.drop segIndex) { s₂ with table := t₃ }

theorem wp_appendNewTokens_agrees (h : Agrees order s) {newTokenIds : List TokenId}
    {extraHash : HashValue} {numLookaheadSlots : ℕ}
    (haligned : AppendAligned order newTokenIds extraHash numLookaheadSlots s) :
    wp (appendNewTokens newTokenIds extraHash numLookaheadSlots)
      (fun _ s' => Agrees (order ++ entered s.table s'.table) s') (fun _ _ => True) s := by
  unfold appendNewTokens
  simp only [wp_bind, wp_get]
  refine (wp_ite _ _ _).mpr ⟨fun _ => trivial, fun _ => ?_⟩
  refine (wp_ite _ _ _).mpr ⟨fun _ => h.of_same rfl, fun _ => ?_⟩
  unfold AppendAligned at haligned
  refine (wp_ite _ _ _).mpr ⟨fun hzero => ?_, fun hzero => ?_⟩
  · rw [if_pos hzero] at haligned
    rw [wp_appendLastToken]
    refine wp_mono (wp_and (wp_lastTokenRank h extraHash) (wp_self _ _)) ?_ fun _ _ _ => trivial
    rintro r s₁ ⟨h₁, hrun⟩
    refine wp_mono (wp_appendToSpRank_agrees h₁ (haligned r s₁ hrun)) ?_ fun _ _ _ => trivial
    rintro _ s₂ ⟨h₂, hobjs, hsize, -⟩
    rwa [entered_congr hobjs hsize]
  · rw [if_neg hzero] at haligned
    rw [wp_appendWithLookahead]
    refine wp_mono (wp_and (wp_reserveSlots h newTokenIds extraHash) (wp_self _ _)) ?_
      fun _ _ _ => trivial
    rintro ⟨numEmptySlots, nextSpRank⟩ s₁ ⟨h₁, hrun⟩
    obtain ⟨hfirst, hsecond⟩ := haligned numEmptySlots nextSpRank s₁ hrun
    dsimp only
    refine (wp_ite _ _ _).mpr ⟨fun _ => ?_, fun _ => h₁⟩
    rw [wp_bind]
    refine wp_mono (wp_and (wp_appendToSpRank_agrees h₁ hfirst) (wp_self _ _)) ?_
      fun _ _ _ => trivial
    rintro ⟨⟩ s₂ ⟨⟨h₂, hobjs, hsize, -⟩, hrun₂⟩
    have hlast := hsecond s₂ hrun₂
    have hsegment : ∀ t₃ : BlockTable, t₃.blockObjs = s₂.table.blockObjs →
        t₃.blockIds = s₂.table.blockIds → t₃.rankSize = s₂.table.rankSize →
        SegmentAligned (order ++ entered s.table s₁.table) t₃.currentSpRank
          ((newTokenIds.filter (· ≠ -1)).drop
            (min numEmptySlots ((newTokenIds.filter (· ≠ -1)).length - 1)))
          { s₂ with table := t₃ } →
        wp (appendToSpRank t₃.currentSpRank
            ((newTokenIds.filter (· ≠ -1)).drop
              (min numEmptySlots ((newTokenIds.filter (· ≠ -1)).length - 1))))
          (fun _ s' => Agrees (order ++ entered s.table s'.table) s') (fun _ _ => True)
          { s₂ with table := t₃ } := by
      intro t₃ hobjs₃ hids₃ hsize₃ haligned₃
      refine wp_mono (wp_appendToSpRank_agrees (h₂.setTable hobjs₃ hids₃ hsize₃) haligned₃) ?_
        fun _ _ h => h
      rintro _ s₄ ⟨h₄, hobjs₄, hsize₄, -⟩
      rwa [entered_congr (hobjs₄.trans (hobjs₃.trans hobjs)) (hsize₄.trans (hsize₃.trans hsize))]
    refine (wp_ite _ _ _).mpr ⟨fun hlt => ?_, fun hlt => ?_⟩
    · rw [if_pos hlt] at hlast
      rw [wp_bind, modifyTable, wp_modify]
      exact hsegment _ rfl rfl rfl hlast
    · rw [if_neg hlt] at hlast
      exact hsegment _ rfl rfl rfl hlast

omit [BlockAllocator HashValue A] [LocalBlockAllocator HashValue A] in
/-- `Update` lists the given blocks. -/
theorem wp_update_agrees {ps : List Ptr} (hnodup : ps.Nodup)
    (htracks : s.world.mem.pool.Tracks ps.toFinset) :
    wp (update ps) (fun _ s' => Agrees ps s') (fun _ _ => True) s := by
  refine wp_mono (wp_update_returns ps) ?_ fun _ _ h => h
  rintro _ _ ⟨hrank, rfl⟩
  exact ⟨⟨hnodup, htracks, hrank, fun _ => rfl⟩, rfl⟩

theorem wp_allocateSmallRankFirstLoop_entered (device : DeviceType) (extraHash : HashValue)
    (fuel : ℕ) (tokenIds : List TokenId) (r numNew : ℕ) (prev : Option Ptr) {used : Finset Ptr}
    (htracks : s.world.mem.pool.Tracks used) :
    wp (allocateSmallRankFirstLoop device extraHash fuel tokenIds r numNew prev)
      (fun ps s' => ps.Nodup ∧ (∀ p ∈ ps, p ∉ used) ∧
        s'.world.mem.pool.Tracks (used ∪ ps.toFinset))
      (fun _ _ => True) s := by
  induction fuel generalizing tokenIds r numNew prev s used with
  | zero => exact ⟨List.nodup_nil, by simp, by simpa using htracks⟩
  | succ fuel ih =>
    unfold allocateSmallRankFirstLoop
    refine (wp_ite _ _ _).mpr ⟨fun _ => ⟨List.nodup_nil, by simp, by simpa using htracks⟩,
      fun _ => ?_⟩
    rw [wp_bind, wp_get]
    dsimp only
    have hrest : ∀ (p : Ptr) (w : World HashValue (CpuNpuBlockAllocator A)),
        Entered s.world.mem used p w.mem →
        wp (do
            if (tokenIds.drop s.table.blockSize).isEmpty then
              modifyTable fun t => { t with currentSpRank := r, appendBlockRankId := r }
            let ps ← allocateSmallRankFirstLoop device extraHash fuel
              (tokenIds.drop s.table.blockSize)
              (if (tokenIds.drop s.table.blockSize).length ≤ s.table.blockSize ∧
                numNew + 1 ≥ s.table.rankSize then s.table.rankSize - 1
                else (r + 1) % s.table.rankSize) (numNew + 1) (some p)
            return p :: ps)
          (fun ps s' => ps.Nodup ∧ (∀ p ∈ ps, p ∉ used) ∧
            s'.world.mem.pool.Tracks (used ∪ ps.toFinset))
          (fun _ _ => True) { s with world := w } := by
      intro p w hp
      have hloop : ∀ t : BlockTable, wp (do
            let ps ← allocateSmallRankFirstLoop device extraHash fuel
              (tokenIds.drop s.table.blockSize)
              (if (tokenIds.drop s.table.blockSize).length ≤ s.table.blockSize ∧
                numNew + 1 ≥ s.table.rankSize then s.table.rankSize - 1
                else (r + 1) % s.table.rankSize) (numNew + 1) (some p)
            return p :: ps)
          (fun ps s' => ps.Nodup ∧ (∀ p ∈ ps, p ∉ used) ∧
            s'.world.mem.pool.Tracks (used ∪ ps.toFinset))
          (fun _ _ => True) ⟨t, w⟩ := by
        intro t
        rw [wp_bind]
        refine wp_mono (ih _ _ _ _ (s := ⟨t, w⟩) hp.tracks) ?_ fun _ _ h => h
        rintro ps s' ⟨hnodup, hnew, htracks'⟩
        refine ⟨List.nodup_cons.mpr ⟨fun hmem => hnew p hmem (Finset.mem_insert_self p used),
          hnodup⟩, fun q hq => ?_, ?_⟩
        · rcases List.mem_cons.mp hq with rfl | hq
          · exact hp.fresh
          · exact fun hmem => hnew q hq (Finset.mem_insert_of_mem hmem)
        · rwa [List.toFinset_cons, Finset.union_insert, ← Finset.insert_union]
      refine (wp_ite _ _ _).mpr ⟨fun _ => ?_, fun _ => hloop s.table⟩
      rw [wp_bind, modifyTable, wp_modify]
      exact hloop _
    refine (wp_ite _ _ _).mpr ⟨fun _ => ?_, fun _ => ?_⟩
    · rw [wp_bind, wp_zoom]
      exact wp_mono (CpuNpuBlockAllocator.wp_allocateImmutableBlock_entered htracks device _ prev
        extraHash r) (fun p w hp => hrest p w hp.1) fun _ _ _ => trivial
    · rw [wp_bind, wp_zoom]
      exact wp_mono (CpuNpuBlockAllocator.wp_allocateMutableBlock_entered htracks device _ prev
        extraHash r) (fun p w hp => hrest p w hp.1) fun _ _ _ => trivial

/-- A prompt gets new blocks, and the table lists them. -/
theorem wp_allocateSmallRankFirst_agrees {used : Finset Ptr}
    (htracks : s.world.mem.pool.Tracks used) (tokenIds : List TokenId) (device : DeviceType)
    (extraHash : HashValue) :
    wp (allocateSmallRankFirst tokenIds device extraHash)
      (fun _ s' => ∃ ps, valueOf (allocateSmallRankFirstLoop device extraHash tokenIds.length
        tokenIds 0 0 none) s = some ps ∧ Agrees ps s')
      (fun _ _ => True) s := by
  unfold allocateSmallRankFirst
  simp only [wp_bind, wp_get]
  refine (wp_ite _ _ _).mpr ⟨fun _ => trivial, fun _ => ?_⟩
  rw [wp_bind]
  refine wp_mono (wp_and (wp_allocateSmallRankFirstLoop_entered device extraHash _ tokenIds 0 0 none
    htracks) (wp_self _ _)) ?_ fun _ _ _ => trivial
  rintro ps s₁ ⟨⟨hnodup, -, htracks₁⟩, hrun⟩
  rw [wp_bind]
  refine wp_mono (wp_update_agrees hnodup (htracks₁.mono Finset.subset_union_right)) ?_
    fun _ _ _ => trivial
  intro _ s₂ h₂
  refine wp_mono (wp_forM (I := fun _ s' => Agrees ps s') _ ps h₂ ?_) ?_ fun _ _ h => h
  · intro p rest s₃ h₃
    simp only [loadBlock, wp_bind, wp_zoom, worldLens_get, worldLens_put, World.memLens_get,
      World.memLens_put, wp_load, modifyTable, wp_modify]
    exact h₃.setTable rfl rfl rfl
  · exact fun _ s' h' => ⟨ps, valueOf_eq_some_iff.mpr ⟨s₁, hrun⟩, h'⟩

/-- When `ReplaceTrailingPlaceHolder` leaves the list of ids right. -/
def ReplaceAligned (order : List Ptr) (tokenIds : List TokenId)
    (trailingPlaceHolderNum replacedPlaceHolderNum rankId : ℕ) (s : TableWorld HashValue A) :
    Prop :=
  ∀ totalTokens, valueOf getNumTokenIds s = some totalTokens →
    ReplacesAligned order rankId (totalTokens - trailingPlaceHolderNum)
      (tokenIds.take replacedPlaceHolderNum) s

theorem wp_replaceTrailingPlaceHolder_agrees (h : Agrees order s) {tokenIds : List TokenId}
    {trailingPlaceHolderNum replacedPlaceHolderNum rankId : ℕ}
    (haligned : ReplaceAligned order tokenIds trailingPlaceHolderNum replacedPlaceHolderNum rankId
      s) :
    wp (replaceTrailingPlaceHolder tokenIds trailingPlaceHolderNum replacedPlaceHolderNum rankId)
      (fun _ s' => Agrees order s') (fun _ _ => True) s := by
  unfold replaceTrailingPlaceHolder
  rw [wp_bind]
  refine wp_mono (wp_and wp_getNumTokenIds (wp_self _ _)) ?_ fun _ _ _ => trivial
  rintro totalTokens _ ⟨rfl, hrun⟩
  refine (wp_ite _ _ _).mpr ⟨fun _ => trivial, fun _ => ?_⟩
  refine (wp_ite _ _ _).mpr ⟨fun _ => trivial, fun _ => ?_⟩
  refine (wp_ite _ _ _).mpr ⟨fun _ => trivial, fun _ => ?_⟩
  exact wp_mono (wp_replaceLoop_agrees h (haligned _ (valueOf_eq_some_iff.mpr ⟨_, hrun⟩)))
    (fun _ _ h => h.1) fun _ _ h => h

/-! ## Runs -/

/-- A table with its allocators, and the blocks in the order in which they came into it. -/
structure Listing (HashValue A : Type) where
  state : TableWorld HashValue A
  order : List Ptr

/-- What happens to a table. Other tables use the allocators in between. -/
inductive Action (HashValue A : Type)
  | allocateSmallRankFirst (tokenIds : List TokenId) (device : DeviceType) (extraHash : HashValue)
  | appendNewTokens (newTokenIds : List TokenId) (extraHash : HashValue) (numLookaheadSlots : ℕ)
  | update (blockObjs : List Ptr)
  | replaceTrailingPlaceHolder (tokenIds : List TokenId)
      (trailingPlaceHolderNum replacedPlaceHolderNum rankId : ℕ)
  | others (world : World HashValue (CpuNpuBlockAllocator A))

/-- An operation that returns, and the order that it leaves. -/
def Listing.run (l : Listing HashValue A) (c : TableM HashValue A Unit)
    (order : TableWorld HashValue A → List Ptr) : Option (Listing HashValue A) :=
  match c l.state with
  | .ok _ s' => some ⟨s', order s'⟩
  | .error _ _ => none

/-- What an action does. -/
def step (l : Listing HashValue A) : Action HashValue A → Option (Listing HashValue A)
  | .allocateSmallRankFirst tokenIds device extraHash =>
    l.run (allocateSmallRankFirst tokenIds device extraHash) fun _ =>
      (valueOf (allocateSmallRankFirstLoop device extraHash tokenIds.length tokenIds 0 0 none)
        l.state).getD []
  | .appendNewTokens newTokenIds extraHash numLookaheadSlots =>
    l.run (appendNewTokens newTokenIds extraHash numLookaheadSlots) fun s' =>
      l.order ++ entered l.state.table s'.table
  | .update blockObjs => l.run (update blockObjs) fun _ => blockObjs
  | .replaceTrailingPlaceHolder tokenIds trailingPlaceHolderNum replacedPlaceHolderNum rankId =>
    l.run (replaceTrailingPlaceHolder tokenIds trailingPlaceHolderNum replacedPlaceHolderNum rankId)
      fun _ => l.order
  | .others world => some ⟨{ l.state with world := world }, l.order⟩

/-- What can happen at all: an update lists different blocks that are in use, and other tables leave
the blocks of this one alone. -/
def allowed (l : Listing HashValue A) : Action HashValue A → Prop
  | .update blockObjs => blockObjs.Nodup ∧ l.state.world.mem.pool.Tracks blockObjs.toFinset
  | .others world => world.mem.pool.Tracks l.order.toFinset ∧
    ∀ p ∈ l.order, SameButHash (l.state.world.mem.obj p) (world.mem.obj p)
  | _ => True

/-- The blocks that the action writes to are aligned. -/
def aligned (l : Listing HashValue A) : Action HashValue A → Prop
  | .appendNewTokens newTokenIds extraHash numLookaheadSlots =>
    AppendAligned l.order newTokenIds extraHash numLookaheadSlots l.state
  | .replaceTrailingPlaceHolder tokenIds trailingPlaceHolderNum replacedPlaceHolderNum rankId =>
    ReplaceAligned l.order tokenIds trailingPlaceHolderNum replacedPlaceHolderNum rankId l.state
  | _ => True

omit [BlockAllocator HashValue A] [LocalBlockAllocator HashValue A] in
theorem Listing.of_run {l l' : Listing HashValue A} {c : TableM HashValue A Unit}
    {order : TableWorld HashValue A → List Ptr} {Q : TableWorld HashValue A → Prop}
    (h : l.run c order = some l') (hc : wp c (fun _ s' => Q s') (fun _ _ => True) l.state) :
    Q l'.state ∧ l'.order = order l'.state := by
  unfold Listing.run at h
  cases hrun : c l.state with
  | ok _ s' =>
    rw [hrun] at h
    obtain rfl := Option.some.inj h
    exact ⟨wp_ok hc hrun, rfl⟩
  | error e s' =>
    rw [hrun] at h
    cases h

/-- Every action keeps the list of ids right. -/
theorem agrees_step {l l' : Listing HashValue A} {a : Action HashValue A}
    (h : Agrees l.order l.state) (hallowed : allowed l a) (haligned : aligned l a)
    (hstep : step l a = some l') :
    Agrees l'.order l'.state := by
  cases a with
  | allocateSmallRankFirst tokenIds device extraHash =>
    obtain ⟨⟨ps, hps, hagrees⟩, horder⟩ := Listing.of_run hstep
      (wp_allocateSmallRankFirst_agrees h.tracks tokenIds device extraHash)
    rw [horder, hps]
    exact hagrees
  | appendNewTokens newTokenIds extraHash numLookaheadSlots =>
    obtain ⟨hagrees, horder⟩ := Listing.of_run hstep (wp_appendNewTokens_agrees h haligned)
    rwa [horder]
  | update blockObjs =>
    obtain ⟨hagrees, horder⟩ := Listing.of_run hstep (wp_update_agrees hallowed.1 hallowed.2)
    rwa [horder]
  | replaceTrailingPlaceHolder tokenIds trailing replaced rankId =>
    obtain ⟨hagrees, horder⟩ := Listing.of_run hstep
      (wp_replaceTrailingPlaceHolder_agrees h haligned)
    rwa [horder]
  | others world =>
    obtain rfl := Option.some.inj hstep
    exact ⟨h.toListed.congr (fun p hp => (hallowed.2 p hp).rankIdx) hallowed.1 rfl rfl,
      h.blockIds.trans (List.map_congr_left fun p hp => (hallowed.2 p hp).blockId.symm)⟩

/-- **The list of ids has the id of each block**, block by block, in every state that a new table
reaches as long as every block that is written to is aligned then. -/
theorem agrees_of_reaches {size R : ℕ} {t : BlockTable}
    {w : World HashValue (CpuNpuBlockAllocator A)} {l : Listing HashValue A}
    (hnew : BlockTable.new size R = .ok t) (htracks : w.mem.pool.Tracks ∅)
    (h : Reaches step (fun l a => allowed l a ∧ aligned l a) ⟨⟨t, w⟩, []⟩ l) :
    Agrees l.order l.state := by
  refine h.invariant (I := fun l => Agrees l.order l.state) ?_
    fun l a l' hl hgood hstep => agrees_step hl hgood.1 hgood.2 hstep
  unfold BlockTable.new at hnew
  split_ifs at hnew
  obtain rfl := Except.ok.inj hnew
  exact ⟨⟨List.nodup_nil, htracks, by simp, fun _ => rfl⟩, rfl⟩

/-! ## Two tables with the same tokens -/

/-- The prompt 1, 2, 3 on two ranks. -/
def threeTokens : Action UInt64 A := .allocateSmallRankFirst [1, 2, 3] .npu 7

/-- The token 4, which fills up a block of rank 1. -/
def fourthToken : Action UInt64 A := .appendNewTokens [4] 7 0

/-- For the block that the next token of a rank goes to: how often its id is counted, the id that is
listed under its index, and its id. -/
def probe (r : ℕ) (s : TableWorld UInt64 (HashLessBlockAllocator UInt64)) :
    Option (Option RefCount × Option BlockId × BlockId) :=
  (s.table.blockObjs r)[s.table.numFullSlotsPerRank r / s.table.blockSize]?.map fun p =>
    ((CpuNpuBlockAllocator.atBlock s.world p).alloc.refCounter.refCounts
        (s.world.mem.obj p).blockId,
      s.table.blockIds[s.table.numFullSlotsPerRank r / s.table.blockSize]?,
      (s.world.mem.obj p).blockId)

/-- Without prefix caching the block of rank 1 keeps its id, which is that of the block of rank 0
too. -/
theorem agrees_of_reaches_hashLess :
    ∃ (t : BlockTable) (w : World UInt64 (CpuNpuBlockAllocator (HashLessBlockAllocator UInt64)))
      (l₁ l : Listing UInt64 (HashLessBlockAllocator UInt64)), BlockTable.new 2 2 = .ok t ∧
      CpuNpuBlockAllocator.new twoRanks = .ok w ∧ step ⟨⟨t, w⟩, []⟩ threeTokens = some l₁ ∧
      step l₁ fourthToken = some l ∧ Agrees l.order l.state := by
  have hrun : ∀ (t : BlockTable)
      (w : World UInt64 (CpuNpuBlockAllocator (HashLessBlockAllocator UInt64))),
      BlockTable.new 2 2 = .ok t → CpuNpuBlockAllocator.new twoRanks = .ok w →
      ((step ⟨⟨t, w⟩, []⟩ threeTokens).bind fun l₁ => (step l₁ fourthToken).map fun _ =>
        valueOf (do
          let r ← lastTokenRank 7
          return probe r (← get)) l₁.state) = some (some (some (some 1, some 0, 0))) := by
    rintro _ _ ⟨⟩ ⟨⟩
    decide +kernel
  obtain ⟨l₁, h₁, hrun⟩ := Option.bind_eq_some_iff.mp (hrun _ _ rfl rfl)
  obtain ⟨l, h₂, hprobe⟩ := Option.map_eq_some_iff.mp hrun
  obtain ⟨s', hprobe⟩ := valueOf_eq_some_iff.mp hprobe
  have haligned : aligned l₁ fourthToken := by
    intro r s₁ hlast
    have hvalue : probe r s₁ = some (some 1, some 0, 0) := by
      refine (wp_ok (Q := fun a _ => probe r s₁ = a) (T := fun _ _ => True) ?_ hprobe)
      rw [wp_bind, wp_iff_of_ok hlast]
      rfl
    refine ⟨fun p hp => ?_, fun _ _ => trivial⟩
    rw [probe, hp, Option.map_some, Option.some.injEq, Prod.mk.injEq, Prod.mk.injEq] at hvalue
    obtain ⟨hcount, hlisted, hid⟩ := hvalue
    refine .inl ⟨fun n hn => ?_, fun _ => ?_⟩
    · change (CpuNpuBlockAllocator.atBlock s₁.world p).alloc.refCounter.refCounts _ = some n at hn
      rw [show ((CpuNpuBlockAllocator.atBlock s₁.world p).mem.obj p).blockId =
        (s₁.world.mem.obj p).blockId from rfl, hcount] at hn
      exact (Option.some.inj hn).ge
    · rw [hlisted, hid]
  exact ⟨_, _, l₁, l, rfl, rfl, h₁, h₂, agrees_of_reaches
    (show BlockTable.new 2 2 = .ok _ from rfl) (.new _)
    (.step fourthToken (.step threeTokens .start ⟨trivial, trivial⟩ h₁) ⟨trivial, haligned⟩ h₂)⟩

/-- **A promoted block.** The second table with the same tokens fills up a block of rank 1 as the
first one did, and shares its id 0 then. The id is noted for the block of rank 0, which is the first
one of its rank too; the list still has the id 1 for the block of rank 1, which nobody uses. -/
theorem not_agrees_promoted :
    ∃ (t : BlockTable) (w : World UInt64 (CpuNpuBlockAllocator (PrefixCacheBlockAllocator UInt64)))
      (first second : Listing UInt64 (PrefixCacheBlockAllocator UInt64)),
      BlockTable.new 2 2 = .ok t ∧ CpuNpuBlockAllocator.new twoRanks = .ok w ∧
      Reaches step allowed ⟨⟨t, w⟩, []⟩ first ∧
      Reaches step allowed ⟨⟨t, first.state.world⟩, []⟩ second ∧
      second.state.table.blockIds = [0, 1] ∧ idsOf second.state.world.mem second.order = [0, 0] ∧
      ¬Agrees second.order second.state := by
  have hrun : ∀ (t : BlockTable)
      (w : World UInt64 (CpuNpuBlockAllocator (PrefixCacheBlockAllocator UInt64))),
      BlockTable.new 2 2 = .ok t → CpuNpuBlockAllocator.new twoRanks = .ok w →
      ((step ⟨⟨t, w⟩, []⟩ threeTokens).bind fun l₁ => (step l₁ fourthToken).bind fun first =>
        (step ⟨⟨t, first.state.world⟩, []⟩ threeTokens).bind fun l₃ =>
        (step l₃ fourthToken).map fun second =>
          (second.state.table.blockIds, idsOf second.state.world.mem second.order)) =
        some ([0, 1], [0, 0]) := by
    rintro _ _ ⟨⟩ ⟨⟩
    decide +kernel
  obtain ⟨l₁, h₁, hrun⟩ := Option.bind_eq_some_iff.mp (hrun _ _ rfl rfl)
  obtain ⟨first, h₂, hrun⟩ := Option.bind_eq_some_iff.mp hrun
  obtain ⟨l₃, h₃, hrun⟩ := Option.bind_eq_some_iff.mp hrun
  obtain ⟨second, h₄, hids⟩ := Option.map_eq_some_iff.mp hrun
  rw [Prod.mk.injEq] at hids
  refine ⟨_, _, first, second, rfl, rfl,
    .step fourthToken (.step threeTokens .start trivial h₁) trivial h₂,
    .step fourthToken (.step threeTokens .start trivial h₃) trivial h₄, hids.1, hids.2,
    fun h => ?_⟩
  have := h.blockIds
  rw [hids.1, hids.2] at this
  exact absurd this (by decide)

end BlockTable

end MindieLLM
