import MindieLLM.Program.Counter
import MindieLLM.Program.Reaches
import Mathlib.Data.Finset.Card

/-!
# LoRA adapters

Adapters are loaded and unloaded while groups of sequences are built and destroyed. A group that is
built asks whether its adapter is available, and then counts itself as a user of it. An adapter to
be unloaded waits until its count is zero.

Each step below is one access to a concurrent map or one request to the executor. Any number of
calls are under way at the same time; a call is what it does next, and one thread unloads. What the
executor answers is left open.

## Main definitions

* `LoraManager`, `LoraManager.step`: the state and its atomic steps
* `LoraManager.Sound`: adapters that groups use are counted and loaded
* `LoraManager.Orderly`: the steps that do not come between the others

## Main results

* `LoraManager.sound_of_reaches`: orderly steps keep the adapters in use
* `LoraManager.not_sound`: an adapter can be unloaded before a group counts itself
-/

namespace MindieLLM

open Program

abbrev LoraName := String

/-- Where the constructor or the destructor of a group is. -/
inductive GroupPc
  /-- `ValidateLoraId` reads `wait2Unloaded_` next, and then `loaded_`. -/
  | validateWait
  | validateLoaded
  /-- `IncLoraRef` reads `loaded_` next, and then counts. -/
  | incCheck
  | incValue
  /-- The group is there. -/
  | running
  /-- `DecLoraRef` reads the count three times, and then counts. -/
  | decCount
  | decHas
  | decGet
  | decValue
  deriving DecidableEq, Repr

/-- A group that asks for an adapter, or has been given it. -/
structure SequenceGroup.Lora where
  loraId : LoraName
  pc : GroupPc
  deriving DecidableEq, Repr

/-- Where a call of `Load` is. -/
inductive LoadPc
  /-- `GetLoraStatus` -/
  | waitCount
  | loadedCount
  | size
  | execute
  | insert
  deriving DecidableEq, Repr

structure LoadCall where
  loraName : LoraName
  pc : LoadPc
  deriving DecidableEq, Repr

/-- Where a call of `StartToUnload` is. -/
inductive StartToUnloadPc
  | loadedCount
  | waitCount
  | get
  | insert
  deriving DecidableEq, Repr

structure StartToUnloadCall where
  loraName : LoraName
  pc : StartToUnloadPc
  deriving DecidableEq, Repr

/-- Where `TryUnLoadWaiting` is, with the adapter it is at and those that are left. -/
inductive TryUnLoadPc
  | idle
  | loop (left : Finset LoraName)
  | count (n : LoraName) (left : Finset LoraName)
  | get (n : LoraName) (left : Finset LoraName)
  | execute (n : LoraName) (left : Finset LoraName)
  | eraseWait (n : LoraName) (left : Finset LoraName)
  | eraseLoaded (n : LoraName) (left : Finset LoraName)
  | thrown
  deriving DecidableEq

structure LoraManager where
  loaded : Finset LoraName
  wait2Unloaded : Finset LoraName := ∅
  loraIdRef : LoraName → Option Nat := fun _ => none
  maxLoras : Nat
  /-- What the executor has loaded. -/
  adapters : Finset LoraName
  groups : List SequenceGroup.Lora := []
  loads : List LoadCall := []
  startToUnloads : List StartToUnloadCall := []
  tryUnLoad : TryUnLoadPc := .idle

/-- The group has been built, and has not been destroyed. -/
def GroupPc.isLive : GroupPc → Bool
  | .running | .decCount | .decHas | .decGet | .decValue => true
  | _ => false

/-- The adapter has been found, and the group has not been counted. -/
def GroupPc.isBuilding : GroupPc → Bool
  | .validateLoaded | .incCheck | .incValue => true
  | _ => false

/-- The constructor has been told that the adapter is available. -/
def GroupPc.isValidated : GroupPc → Bool
  | .validateWait | .validateLoaded => false
  | _ => true

/-- `Load` has found room. -/
def LoadPc.hasRoom : LoadPc → Bool
  | .execute | .insert => true
  | _ => false

/-- The adapter has been found unused. -/
def TryUnLoadPc.unloads : TryUnLoadPc → LoraName → Bool
  | .execute n _, m | .eraseWait n _, m | .eraseLoaded n _, m => n = m
  | _, _ => false

/-- The executor has unloaded the adapter. -/
def TryUnLoadPc.erases : TryUnLoadPc → LoraName → Bool
  | .eraseWait n _, m | .eraseLoaded n _, m => n = m
  | _, _ => false

/-- What `TryUnLoadWaiting` has read in `wait2Unloaded_` and not erased there. -/
def TryUnLoadPc.waiting : TryUnLoadPc → Finset LoraName
  | .idle | .thrown => ∅
  | .loop left | .eraseLoaded _ left => left
  | .count n left | .get n left | .execute n left | .eraseWait n left => insert n left

/-- The adapter it is at is not among those that are left. -/
def TryUnLoadPc.apart : TryUnLoadPc → Bool
  | .count n left | .get n left | .execute n left | .eraseWait n left => n ∉ left
  | _ => true

namespace LoraManager

inductive Op
  /-- A group is built that asks for an adapter. -/
  | newGroup (loraId : LoraName)
  | group (g : SequenceGroup.Lora)
  | load (loraName loraPath : String)
  | loadStep (c : LoadCall) (success : Bool)
  | startToUnload (loraName : LoraName)
  | startToUnloadStep (c : StartToUnloadCall)
  | tryUnLoadWaiting
  /-- The loop comes to an adapter. -/
  | nextWaiting (n : LoraName)
  | tryUnLoadStep (success : Bool)

variable (s : LoraManager)

/-- At the start, with the adapters of the configuration. -/
def init (loaded : Finset LoraName) (maxLoras : Nat) : LoraManager where
  loaded := loaded
  maxLoras := maxLoras
  adapters := loaded

/-- The size of `uint32_t`. -/
def countLimit : Nat := 2 ^ 32

/-- `ConcurrentMap::IncValue` -/
def incValue (n : LoraName) : LoraManager :=
  let v := (s.loraIdRef n).elim 1 (wrapSucc countLimit)
  { s with loraIdRef := Function.update s.loraIdRef n (some v) }

/-- `ConcurrentMap::DecValue` -/
def decValue (n : LoraName) : LoraManager :=
  let v := wrapPred countLimit ((s.loraIdRef n).getD 0)
  { s with loraIdRef := Function.update s.loraIdRef n (some v) }

def setGroup (g : SequenceGroup.Lora) (pc : GroupPc) : LoraManager :=
  { s with groups := { g with pc := pc } :: s.groups.erase g }

def dropGroup (g : SequenceGroup.Lora) : LoraManager :=
  { s with groups := s.groups.erase g }

def setLoad (c : LoadCall) (pc : LoadPc) : LoraManager :=
  { s with loads := { c with pc := pc } :: s.loads.erase c }

def dropLoad (c : LoadCall) : LoraManager :=
  { s with loads := s.loads.erase c }

def setStartToUnload (c : StartToUnloadCall) (pc : StartToUnloadPc) : LoraManager :=
  { s with startToUnloads := { c with pc := pc } :: s.startToUnloads.erase c }

def dropStartToUnload (c : StartToUnloadCall) : LoraManager :=
  { s with startToUnloads := s.startToUnloads.erase c }

def setTryUnLoad (pc : TryUnLoadPc) : LoraManager := { s with tryUnLoad := pc }

/-- The names that are not counted. -/
def unnamed (n : LoraName) : Bool := n = "" || n = "None"

/-- The constructor and the destructor of a group. A group without its adapter uses the base
model. -/
def groupStep (g : SequenceGroup.Lora) : LoraManager :=
  let n := g.loraId
  match g.pc with
  | .validateWait =>
    if n ∈ s.wait2Unloaded then s.dropGroup g else s.setGroup g .validateLoaded
  | .validateLoaded => if n ∈ s.loaded then s.setGroup g .incCheck else s.dropGroup g
  | .incCheck =>
    if !unnamed n ∧ n ∈ s.loaded then s.setGroup g .incValue else s.setGroup g .running
  | .incValue => (s.incValue n).setGroup g .running
  | .running => if unnamed n then s.dropGroup g else s.setGroup g .decCount
  | .decCount => if s.loraIdRef n = none then s.dropGroup g else s.setGroup g .decHas
  | .decHas => if s.loraIdRef n = none then s.dropGroup g else s.setGroup g .decGet
  | .decGet => if s.loraIdRef n = some 0 then s.dropGroup g else s.setGroup g .decValue
  | .decValue => (s.decValue n).dropGroup g

def loadStep (c : LoadCall) (success : Bool) : LoraManager :=
  let n := c.loraName
  match c.pc with
  | .waitCount => if n ∈ s.wait2Unloaded then s.dropLoad c else s.setLoad c .loadedCount
  | .loadedCount => if n ∈ s.loaded then s.dropLoad c else s.setLoad c .size
  | .size => if s.loaded.card = s.maxLoras then s.dropLoad c else s.setLoad c .execute
  | .execute =>
    if success then { s.setLoad c .insert with adapters := insert n s.adapters }
    else s.dropLoad c
  | .insert => { s.dropLoad c with loaded := insert n s.loaded }

def startToUnloadStep (c : StartToUnloadCall) : LoraManager :=
  let n := c.loraName
  match c.pc with
  | .loadedCount =>
    if n ∈ s.loaded then s.setStartToUnload c .waitCount else s.dropStartToUnload c
  | .waitCount =>
    if n ∈ s.wait2Unloaded then s.dropStartToUnload c else s.setStartToUnload c .get
  -- without a value the call throws
  | .get => if n ∈ s.loaded then s.setStartToUnload c .insert else s.dropStartToUnload c
  | .insert => { s.dropStartToUnload c with wait2Unloaded := insert n s.wait2Unloaded }

def tryUnLoadStep (success : Bool) : Option LoraManager :=
  match s.tryUnLoad with
  | .idle | .thrown => none
  | .loop left => if left = ∅ then some (s.setTryUnLoad .idle) else none
  | .count n left =>
    if s.loraIdRef n = none then some (s.setTryUnLoad (.execute n left))
    else some (s.setTryUnLoad (.get n left))
  | .get n left =>
    if s.loraIdRef n = some 0 then some (s.setTryUnLoad (.execute n left))
    else some (s.setTryUnLoad (.loop left))
  | .execute n left =>
    if success then
      some { s.setTryUnLoad (.eraseWait n left) with adapters := s.adapters.erase n }
    else some (s.setTryUnLoad .thrown)
  | .eraseWait n left =>
    some { s.setTryUnLoad (.eraseLoaded n left) with wait2Unloaded := s.wait2Unloaded.erase n }
  | .eraseLoaded n left =>
    some { s.setTryUnLoad (.loop left) with loaded := s.loaded.erase n }

def step : Op → Option LoraManager
  | .newGroup n => some { s with groups := ⟨n, .validateWait⟩ :: s.groups }
  | .group g => if g ∈ s.groups then some (s.groupStep g) else none
  | .load n path =>
    -- without a path it is refused, whatever else is found
    if path = "" then some s else some { s with loads := ⟨n, .waitCount⟩ :: s.loads }
  | .loadStep c success => if c ∈ s.loads then some (s.loadStep c success) else none
  | .startToUnload n => some { s with startToUnloads := ⟨n, .loadedCount⟩ :: s.startToUnloads }
  | .startToUnloadStep c => if c ∈ s.startToUnloads then some (s.startToUnloadStep c) else none
  | .tryUnLoadWaiting =>
    if s.tryUnLoad = .idle then some (s.setTryUnLoad (.loop s.wait2Unloaded)) else none
  | .nextWaiting n =>
    match s.tryUnLoad with
    | .loop left => if n ∈ left then some (s.setTryUnLoad (.count n (left.erase n))) else none
    | _ => none
  | .tryUnLoadStep success => s.tryUnLoadStep success

/-! ## Adapters in use -/

/-- The number of live groups that use an adapter. -/
def liveCount (n : LoraName) : Nat := s.groups.countP fun g => g.loraId = n ∧ g.pc.isLive

/-- The number of calls of `Load` that have found room. -/
def loadsUnderWay : Nat := s.loads.countP (·.pc.hasRoom)

/-- No group that is built or destroyed is cut off from its adapter. -/
structure Sound : Prop where
  /-- An adapter is unloaded only when no live group uses it. -/
  unused : ∀ n, s.tryUnLoad.unloads n → s.liveCount n = 0
  counted : ∀ n, (s.loraIdRef n).getD 0 = s.liveCount n
  /-- A group that runs has its adapter loaded. -/
  running : ∀ g ∈ s.groups, g.pc.isLive → g.loraId ∈ s.loaded ∧ g.loraId ∈ s.adapters
  bounded : s.loaded.card ≤ s.maxLoras

/-- The steps that do not come between the accesses of others. -/
def Orderly : Op → Prop
  | .group g =>
    match g.pc with
    -- an adapter is not asked for between the two erasings of it
    | .validateWait => s.tryUnLoad.erases g.loraId → g.loraId ∈ s.wait2Unloaded
    -- an adapter that is found has a name that is counted
    | .validateLoaded => g.loraId ∈ s.loaded → unnamed g.loraId = false
    | .incValue => s.liveCount g.loraId + 1 < countLimit
    | _ => True
  | .loadStep c _ =>
    match c.pc with
    -- the calls that have found room leave room for one more
    | .size => s.loaded.card = s.maxLoras ∨ s.loaded.card + s.loadsUnderWay < s.maxLoras
    | _ => True
  | .tryUnLoadStep _ =>
    match s.tryUnLoad with
    -- an adapter is not found unused while a group that asks for it is built
    | .count n _ => s.loraIdRef n = none → ∀ g ∈ s.groups, g.loraId = n → g.pc.isBuilding = false
    | .get n _ => s.loraIdRef n = some 0 → ∀ g ∈ s.groups, g.loraId = n → g.pc.isBuilding = false
    -- it is not unloaded while a call that has loaded it has not said so
    | .execute n _ => ∀ c ∈ s.loads, c ≠ ⟨n, .insert⟩
    | _ => True
  | _ => True

instance (s : LoraManager) (op : Op) : Decidable (s.Orderly op) := by
  unfold Orderly
  repeat' split
  all_goals infer_instance

/-! ## The invariant -/

/-- What orderly steps preserve. -/
structure Invariant : Prop where
  counted : ∀ n, (s.loraIdRef n).getD 0 = s.liveCount n
  few : ∀ n, s.liveCount n < countLimit
  named : ∀ g ∈ s.groups, g.pc.isValidated → unnamed g.loraId = false
  held : ∀ g ∈ s.groups, g.pc.isValidated → g.loraId ∈ s.loaded
  /-- While an adapter is unloaded, no group has got beyond its first look. -/
  unused : ∀ g ∈ s.groups, s.tryUnLoad.unloads g.loraId → g.pc = .validateWait
  waiting : s.tryUnLoad.waiting ⊆ s.wait2Unloaded
  apart : s.tryUnLoad.apart
  inserted : ∀ c ∈ s.loads, c.pc = .insert → c.loraName ∈ s.adapters
  present : ∀ n ∈ s.loaded, s.tryUnLoad.erases n = false → n ∈ s.adapters
  bounded : s.loaded.card + s.loadsUnderWay ≤ s.maxLoras

variable {s} {s' : LoraManager} {n : LoraName}

theorem unloads_of_erases {pc : TryUnLoadPc} (h : pc.erases n = true) : pc.unloads n = true := by
  cases pc <;> simp_all [TryUnLoadPc.erases, TryUnLoadPc.unloads]

theorem Invariant.sound (h : s.Invariant) : s.Sound := by
  have hlive {g : SequenceGroup.Lora} (hg : g.pc.isLive) : g.pc.isValidated ∧
      g.pc ≠ .validateWait := by
    cases hpc : g.pc <;> simp_all [GroupPc.isLive, GroupPc.isValidated]
  refine ⟨fun n hn => ?_, h.counted, fun g hg hl => ?_, ?_⟩
  · rw [liveCount, List.countP_eq_zero]
    intro g hg hl
    obtain ⟨hname, hl⟩ := of_decide_eq_true hl
    exact (hlive hl).2 (h.unused g hg (hname ▸ hn))
  · have hloaded := h.held g hg (hlive hl).1
    refine ⟨hloaded, h.present _ hloaded ?_⟩
    -- an adapter that is erased is not in use
    rcases he : s.tryUnLoad.erases g.loraId with _ | _
    · rfl
    · exact absurd (h.unused g hg (unloads_of_erases he)) (hlive hl).2
  · have := h.bounded
    omega

theorem invariant_init {loaded : Finset LoraName} {maxLoras : Nat}
    (h : loaded.card ≤ maxLoras) : (init loaded maxLoras).Invariant := by
  constructor <;>
    simp [init, liveCount, loadsUnderWay, TryUnLoadPc.waiting, TryUnLoadPc.apart, h, countLimit]
  exact fun n hn _ => hn

/-! ### Groups -/

section Groups

variable {g : SequenceGroup.Lora} {pc : GroupPc}

theorem liveCount_erase (hg : g ∈ s.groups) : s.liveCount n =
    (s.dropGroup g).liveCount n + if g.loraId = n ∧ g.pc.isLive then 1 else 0 := by
  unfold liveCount dropGroup
  rw [(List.perm_cons_erase hg).countP_eq, List.countP_cons]
  simp

theorem liveCount_setGroup : (s.setGroup g pc).liveCount n =
    (s.dropGroup g).liveCount n + if g.loraId = n ∧ pc.isLive then 1 else 0 := by
  simp [liveCount, setGroup, dropGroup, List.countP_cons]

/-- A group moves on, and neither begins nor ends to be counted. -/
theorem Invariant.setGroup (h : s.Invariant) (hg : g ∈ s.groups)
    (hlive : pc.isLive = g.pc.isLive)
    (hvalid : pc.isValidated → unnamed g.loraId = false ∧ g.loraId ∈ s.loaded)
    (hunused : s.tryUnLoad.unloads g.loraId → pc = .validateWait) :
    (s.setGroup g pc).Invariant := by
  have hcount (n : LoraName) : (s.setGroup g pc).liveCount n = s.liveCount n := by
    rw [liveCount_setGroup, liveCount_erase hg, hlive]
  refine { h with
    counted := fun n => ?_
    few := fun n => ?_
    named := fun g' hg' hv => ?_
    held := fun g' hg' hv => ?_
    unused := fun g' hg' hu => ?_ }
  · rw [hcount]
    exact h.counted n
  · rw [hcount]
    exact h.few n
  all_goals rcases List.mem_cons.mp hg' with rfl | hg'
  · exact (hvalid hv).1
  · exact h.named g' (List.mem_of_mem_erase hg') hv
  · exact (hvalid hv).2
  · exact h.held g' (List.mem_of_mem_erase hg') hv
  · exact hunused hu
  · exact h.unused g' (List.mem_of_mem_erase hg') hu

/-- A group that is not counted goes. -/
theorem Invariant.dropGroup (h : s.Invariant) (hg : g ∈ s.groups) (hlive : g.pc.isLive = false) :
    (s.dropGroup g).Invariant := by
  have hcount (n : LoraName) : (s.dropGroup g).liveCount n = s.liveCount n := by
    simp [liveCount_erase hg, hlive]
  refine { h with
    counted := fun n => (hcount n).symm ▸ h.counted n
    few := fun n => (hcount n).symm ▸ h.few n
    named := fun g' hg' => h.named g' (List.mem_of_mem_erase hg')
    held := fun g' hg' => h.held g' (List.mem_of_mem_erase hg')
    unused := fun g' hg' => h.unused g' (List.mem_of_mem_erase hg') }

/-- The group counts itself. -/
theorem Invariant.incValue (h : s.Invariant) (hg : g ∈ s.groups) (hpc : g.pc = .incValue)
    (hfew : s.liveCount g.loraId + 1 < countLimit) :
    ((s.incValue g.loraId).setGroup g .running).Invariant := by
  have hvalid : g.pc.isValidated = true := by rw [hpc]; rfl
  have hunused (hu : s.tryUnLoad.unloads g.loraId) : GroupPc.running = .validateWait := by
    have := h.unused g hg hu
    rw [hpc] at this
    cases this
  have hcount (n : LoraName) : ((s.incValue g.loraId).setGroup g .running).liveCount n =
      s.liveCount n + if g.loraId = n then 1 else 0 := by
    rw [liveCount_setGroup, liveCount_erase hg, hpc]
    simp [GroupPc.isLive, LoraManager.dropGroup, LoraManager.incValue, liveCount]
  have href : (s.loraIdRef g.loraId).elim 1 (wrapSucc countLimit) = s.liveCount g.loraId + 1 := by
    have hcounted := h.counted g.loraId
    cases hv : s.loraIdRef g.loraId with
    | none =>
      rw [hv] at hcounted
      exact congrArg (· + 1) hcounted
    | some v =>
      rw [hv] at hcounted
      obtain rfl : v = s.liveCount g.loraId := hcounted
      exact wrapSucc_of_lt hfew
  refine { h with
    counted := fun n => ?_
    few := fun n => ?_
    named := fun g' hg' hv => ?_
    held := fun g' hg' hv => ?_
    unused := fun g' hg' hu => ?_ }
  · rw [hcount]
    by_cases hn : g.loraId = n
    · subst hn
      simp only [LoraManager.setGroup, LoraManager.incValue, Function.update_self, href,
        Option.getD_some, if_true]
    · simp only [LoraManager.setGroup, LoraManager.incValue,
        Function.update_of_ne (Ne.symm hn), if_neg hn, h.counted n, Nat.add_zero]
  · rw [hcount]
    by_cases hn : g.loraId = n
    · subst hn
      simpa only [if_true] using hfew
    · rw [if_neg hn]
      exact h.few n
  all_goals rcases List.mem_cons.mp hg' with rfl | hg'
  · exact h.named g hg hvalid
  · exact h.named g' (List.mem_of_mem_erase hg') hv
  · exact h.held g hg hvalid
  · exact h.held g' (List.mem_of_mem_erase hg') hv
  · exact hunused hu
  · exact h.unused g' (List.mem_of_mem_erase hg') hu

/-- The group is not counted any more. -/
theorem Invariant.decValue (h : s.Invariant) (hg : g ∈ s.groups) (hpc : g.pc = .decValue) :
    ((s.decValue g.loraId).dropGroup g).Invariant := by
  have hcount (n : LoraName) : s.liveCount n =
      ((s.decValue g.loraId).dropGroup g).liveCount n + if g.loraId = n then 1 else 0 := by
    rw [liveCount_erase hg, hpc]
    simp [GroupPc.isLive, LoraManager.dropGroup, LoraManager.decValue, liveCount]
  refine { h with
    counted := fun n => ?_
    few := fun n => ?_
    named := fun g' hg' => h.named g' (List.mem_of_mem_erase hg')
    held := fun g' hg' => h.held g' (List.mem_of_mem_erase hg')
    unused := fun g' hg' => h.unused g' (List.mem_of_mem_erase hg') }
  · have hn := hcount n
    have hfew := h.few n
    have hold := h.counted n
    by_cases hname : g.loraId = n
    · subst hname
      rw [if_pos rfl] at hn
      have hsub : wrapPred countLimit ((s.loraIdRef g.loraId).getD 0) =
          s.liveCount g.loraId - 1 := by
        rw [hold, wrapPred_of_pos (by omega) hfew]
      have href : (((s.decValue g.loraId).dropGroup g).loraIdRef g.loraId).getD 0 =
          s.liveCount g.loraId - 1 := by
        simp only [LoraManager.dropGroup, LoraManager.decValue, Function.update_self,
          Option.getD_some, hsub]
      omega
    · simp only [if_neg hname] at hn
      simp only [LoraManager.dropGroup, LoraManager.decValue,
        Function.update_of_ne (Ne.symm hname)] at hn ⊢
      omega
  · have := hcount n
    have := h.few n
    omega

theorem Invariant.groupStep (h : s.Invariant) (hg : g ∈ s.groups)
    (hsafe : s.Orderly (.group g)) : (s.groupStep g).Invariant := by
  have hvalid (hv : g.pc.isValidated) : unnamed g.loraId = false ∧ g.loraId ∈ s.loaded :=
    ⟨h.named g hg hv, h.held g hg hv⟩
  have hunused (hne : g.pc ≠ .validateWait) (hu : s.tryUnLoad.unloads g.loraId) {pc : GroupPc} :
      pc = .validateWait := absurd (h.unused g hg hu) hne
  -- a live group has been counted
  have href (hl : g.pc.isLive) : s.loraIdRef g.loraId ≠ none ∧ s.loraIdRef g.loraId ≠ some 0 := by
    have hpos : 0 < s.liveCount g.loraId :=
      List.countP_pos_iff.mpr ⟨g, hg, by simp [hl]⟩
    have := h.counted g.loraId
    constructor <;> intro heq <;> rw [heq] at this <;> simp at this <;> omega
  cases hpc : g.pc with
  | validateWait =>
    simp only [LoraManager.groupStep, hpc]
    have hlive : g.pc.isLive = false := by rw [hpc]; rfl
    split
    · exact h.dropGroup hg hlive
    · next hwait =>
      refine h.setGroup hg (by rw [hpc]; rfl) (fun hv => by cases hv) fun hu => ?_
      -- an adapter that is unloaded still waits, or is between the two erasings
      exfalso
      have hmem := h.waiting
      simp only [Orderly, hpc] at hsafe
      cases htry : s.tryUnLoad <;>
        simp only [htry, TryUnLoadPc.unloads, TryUnLoadPc.erases, TryUnLoadPc.waiting,
          decide_eq_true_eq, reduceCtorEq] at hu hmem hsafe
      · exact hwait (hmem (hu ▸ Finset.mem_insert_self _ _))
      · exact hwait (hsafe hu)
      · exact hwait (hsafe hu)
  | validateLoaded =>
    simp only [LoraManager.groupStep, hpc]
    split
    · next hloaded =>
      simp only [Orderly, hpc] at hsafe
      exact h.setGroup hg (by rw [hpc]; rfl) (fun _ => ⟨hsafe hloaded, hloaded⟩)
        fun hu => hunused (by simp [hpc]) hu
    · exact h.dropGroup hg (by rw [hpc]; rfl)
  | incCheck =>
    simp only [LoraManager.groupStep, hpc]
    have hv := hvalid (by rw [hpc]; rfl)
    rw [if_pos ⟨by simp [hv.1], hv.2⟩]
    exact h.setGroup hg (by rw [hpc]; rfl) (fun _ => hv) fun hu => hunused (by simp [hpc]) hu
  | incValue =>
    simp only [LoraManager.groupStep, hpc]
    simp only [Orderly, hpc] at hsafe
    exact h.incValue hg hpc hsafe
  | running =>
    simp only [LoraManager.groupStep, hpc]
    have hv := hvalid (by rw [hpc]; rfl)
    rw [if_neg (by simp [hv.1])]
    exact h.setGroup hg (by rw [hpc]; rfl) (fun _ => hv) fun hu => hunused (by simp [hpc]) hu
  | decCount =>
    simp only [LoraManager.groupStep, hpc]
    rw [if_neg (href (by rw [hpc]; rfl)).1]
    exact h.setGroup hg (by rw [hpc]; rfl) (fun _ => hvalid (by rw [hpc]; rfl))
      fun hu => hunused (by simp [hpc]) hu
  | decHas =>
    simp only [LoraManager.groupStep, hpc]
    rw [if_neg (href (by rw [hpc]; rfl)).1]
    exact h.setGroup hg (by rw [hpc]; rfl) (fun _ => hvalid (by rw [hpc]; rfl))
      fun hu => hunused (by simp [hpc]) hu
  | decGet =>
    simp only [LoraManager.groupStep, hpc]
    rw [if_neg (href (by rw [hpc]; rfl)).2]
    exact h.setGroup hg (by rw [hpc]; rfl) (fun _ => hvalid (by rw [hpc]; rfl))
      fun hu => hunused (by simp [hpc]) hu
  | decValue =>
    simp only [LoraManager.groupStep, hpc]
    exact h.decValue hg hpc

end Groups

/-! ### Loading -/

section Loads

variable {c : LoadCall} {pc : LoadPc}

theorem loadsUnderWay_erase (hc : c ∈ s.loads) : s.loadsUnderWay =
    (s.dropLoad c).loadsUnderWay + if c.pc.hasRoom then 1 else 0 := by
  unfold loadsUnderWay dropLoad
  rw [(List.perm_cons_erase hc).countP_eq, List.countP_cons]

theorem loadsUnderWay_setLoad : (s.setLoad c pc).loadsUnderWay =
    (s.dropLoad c).loadsUnderWay + if pc.hasRoom then 1 else 0 := by
  simp only [loadsUnderWay, setLoad, dropLoad, List.countP_cons]

theorem Invariant.dropLoad (h : s.Invariant) (hc : c ∈ s.loads) : (s.dropLoad c).Invariant :=
  { h with
    inserted := fun c' hc' => h.inserted c' (List.mem_of_mem_erase hc')
    bounded := by
      have := h.bounded
      have := loadsUnderWay_erase hc
      change s.loaded.card + (s.dropLoad c).loadsUnderWay ≤ s.maxLoras
      omega }

/-- A call goes on; it finds room at most when there is room for one more. -/
theorem Invariant.setLoad (h : s.Invariant) (hc : c ∈ s.loads) (hpc : pc ≠ .insert)
    (hroom : pc.hasRoom → s.loaded.card + s.loadsUnderWay < s.maxLoras) :
    (s.setLoad c pc).Invariant := by
  refine { h with
    inserted := fun c' hc' hins => ?_
    bounded := ?_ }
  · rcases List.mem_cons.mp hc' with rfl | hc'
    · exact absurd hins hpc
    · exact h.inserted c' (List.mem_of_mem_erase hc') hins
  · have hbound := h.bounded
    have hdrop := loadsUnderWay_erase hc
    change s.loaded.card + (s.setLoad c pc).loadsUnderWay ≤ s.maxLoras
    rw [loadsUnderWay_setLoad]
    cases hp : pc.hasRoom with
    | false => simp; omega
    | true =>
      have := hroom hp
      simp only [if_true]
      omega

theorem Invariant.loadStep (h : s.Invariant) (hc : c ∈ s.loads) {success : Bool}
    (hsafe : s.Orderly (.loadStep c success)) : (s.loadStep c success).Invariant := by
  cases hpc : c.pc with
  | waitCount =>
    simp only [LoraManager.loadStep, hpc]
    split
    · exact h.dropLoad hc
    · exact h.setLoad hc (by simp) fun hr => by cases hr
  | loadedCount =>
    simp only [LoraManager.loadStep, hpc]
    split
    · exact h.dropLoad hc
    · exact h.setLoad hc (by simp) fun hr => by cases hr
  | size =>
    simp only [LoraManager.loadStep, hpc]
    simp only [Orderly, hpc] at hsafe
    split
    · exact h.dropLoad hc
    · next hfull => exact h.setLoad hc (by simp) fun _ => hsafe.resolve_left hfull
  | execute =>
    simp only [LoraManager.loadStep, hpc]
    split
    · refine { h with
        inserted := fun c' hc' hins => ?_
        present := fun n hn he => Finset.mem_insert_of_mem (h.present n hn he)
        bounded := ?_ }
      · rcases List.mem_cons.mp hc' with rfl | hc'
        · exact Finset.mem_insert_self _ _
        · exact Finset.mem_insert_of_mem (h.inserted c' (List.mem_of_mem_erase hc') hins)
      · have hsame : (s.setLoad c .insert).loadsUnderWay = s.loadsUnderWay := by
          rw [loadsUnderWay_setLoad, loadsUnderWay_erase hc, hpc]
          rfl
        change s.loaded.card + (s.setLoad c .insert).loadsUnderWay ≤ s.maxLoras
        rw [hsame]
        exact h.bounded
    · exact h.dropLoad hc
  | insert =>
    simp only [LoraManager.loadStep, hpc]
    have hdrop := h.dropLoad hc
    refine { hdrop with
      held := fun g hg hv => Finset.mem_insert_of_mem (h.held g hg hv)
      present := fun n hn he => ?_
      bounded := ?_ }
    · rcases Finset.mem_insert.mp hn with rfl | hn
      · exact h.inserted c hc hpc
      · exact h.present n hn he
    · -- the room that the call has found
      have hroom := loadsUnderWay_erase hc
      rw [hpc] at hroom
      have hcard := Finset.card_insert_le c.loraName s.loaded
      have := h.bounded
      change (insert c.loraName s.loaded).card + (s.dropLoad c).loadsUnderWay ≤ s.maxLoras
      simp only [LoadPc.hasRoom, if_true] at hroom
      omega

end Loads

/-! ### Unloading -/

theorem Invariant.startToUnloadStep (h : s.Invariant) {c : StartToUnloadCall} :
    (s.startToUnloadStep c).Invariant := by
  have hset (pc : StartToUnloadPc) : (s.setStartToUnload c pc).Invariant := { h with }
  have hdrop : (s.dropStartToUnload c).Invariant := { h with }
  cases hpc : c.pc with
  | insert =>
    simp only [LoraManager.startToUnloadStep, hpc]
    exact { hdrop with
      waiting := h.waiting.trans (Finset.subset_insert _ _) }
  | _ =>
    simp only [LoraManager.startToUnloadStep, hpc]
    split
    · first | exact hset _ | exact hdrop
    · first | exact hset _ | exact hdrop

/-- The thread goes on, and unloads no other adapter. -/
theorem Invariant.setTryUnLoad (h : s.Invariant) {pc : TryUnLoadPc}
    (hunloads : ∀ n, pc.unloads n → s.tryUnLoad.unloads n)
    (herases : ∀ n, pc.erases n = false → s.tryUnLoad.erases n = false)
    (hwaiting : pc.waiting ⊆ s.wait2Unloaded) (hapart : pc.apart) :
    (s.setTryUnLoad pc).Invariant :=
  { h with
    unused := fun g hg hu => h.unused g hg (hunloads _ hu)
    waiting := hwaiting
    apart := hapart
    present := fun n hn he => h.present n hn (herases n he) }

/-- An adapter is found that nobody uses, or asks for. -/
theorem Invariant.found (h : s.Invariant) {left : Finset LoraName}
    (herases : ∀ n, s.tryUnLoad.erases n = false) (hwaiting : insert n left ⊆ s.wait2Unloaded)
    (hapart : n ∉ left) (href : (s.loraIdRef n).getD 0 = 0)
    (hsafe : ∀ g ∈ s.groups, g.loraId = n → g.pc.isBuilding = false) :
    (s.setTryUnLoad (.execute n left)).Invariant :=
  { h with
    unused := fun g hg hu => by
      obtain rfl : n = g.loraId := of_decide_eq_true hu
      have hbuilding := hsafe g hg rfl
      have hlive : g.pc.isLive = false := by
        rw [h.counted, liveCount, List.countP_eq_zero] at href
        simpa using href g hg
      cases hpc : g.pc with
      | validateWait => rfl
      | _ => simp [hpc, GroupPc.isBuilding, GroupPc.isLive] at hbuilding hlive
    waiting := hwaiting
    apart := decide_eq_true hapart
    present := fun n hn _ => h.present n hn (herases n) }

theorem Invariant.tryUnLoadStep (h : s.Invariant) {success : Bool}
    (hsafe : s.Orderly (.tryUnLoadStep success)) (hs : s.tryUnLoadStep success = some s') :
    s'.Invariant := by
  have hwaiting := h.waiting
  have hapart := h.apart
  cases hpc : s.tryUnLoad with
  | idle => simp [LoraManager.tryUnLoadStep, hpc] at hs
  | thrown => simp [LoraManager.tryUnLoadStep, hpc] at hs
  | loop left =>
    simp only [LoraManager.tryUnLoadStep, hpc] at hs
    split at hs
    · obtain rfl := Option.some.inj hs
      exact h.setTryUnLoad (fun _ hu => by cases hu) (fun _ _ => by rw [hpc]; rfl)
        (Finset.empty_subset _) rfl
    · cases hs
  | count n left =>
    simp only [LoraManager.tryUnLoadStep, hpc] at hs
    simp only [Orderly, hpc] at hsafe
    rw [hpc] at hwaiting hapart
    split at hs <;> obtain rfl := Option.some.inj hs
    · next href =>
      exact h.found (fun _ => by rw [hpc]; rfl) hwaiting (of_decide_eq_true hapart)
        (by simp [href]) (hsafe href)
    · exact h.setTryUnLoad (fun _ hu => by cases hu) (fun _ _ => by rw [hpc]; rfl) hwaiting
        hapart
  | get n left =>
    simp only [LoraManager.tryUnLoadStep, hpc] at hs
    simp only [Orderly, hpc] at hsafe
    rw [hpc] at hwaiting hapart
    split at hs <;> obtain rfl := Option.some.inj hs
    · next href =>
      exact h.found (fun _ => by rw [hpc]; rfl) hwaiting (of_decide_eq_true hapart)
        (by simp [href]) (hsafe href)
    · exact h.setTryUnLoad (fun _ hu => by cases hu) (fun _ _ => by rw [hpc]; rfl)
        ((Finset.subset_insert _ _).trans hwaiting) rfl
  | execute n left =>
    simp only [LoraManager.tryUnLoadStep, hpc] at hs
    simp only [Orderly, hpc] at hsafe
    rw [hpc] at hwaiting hapart
    split at hs <;> obtain rfl := Option.some.inj hs
    · exact { h with
        unused := fun g hg hu => h.unused g hg (by rw [hpc]; exact hu)
        waiting := hwaiting
        apart := hapart
        inserted := fun c hc hins => by
          -- no call says later that it has loaded the adapter
          refine Finset.mem_erase.mpr ⟨fun hname => ?_, h.inserted c hc hins⟩
          exact hsafe c hc (by rw [← hname, ← hins])
        present := fun m hm he => by
          have hne : n ≠ m := of_decide_eq_false he
          exact Finset.mem_erase.mpr ⟨hne.symm, h.present m hm (by rw [hpc]; rfl)⟩ }
    · exact h.setTryUnLoad (fun _ hu => by cases hu) (fun _ _ => by rw [hpc]; rfl)
        (Finset.empty_subset _) rfl
  | eraseWait n left =>
    simp only [LoraManager.tryUnLoadStep, hpc] at hs
    rw [hpc] at hwaiting hapart
    obtain rfl := Option.some.inj hs
    exact { h with
      unused := fun g hg hu => h.unused g hg (by rw [hpc]; exact hu)
      waiting := fun m hm => by
        -- the others still wait
        refine Finset.mem_erase.mpr ⟨?_, hwaiting (Finset.mem_insert_of_mem hm)⟩
        rintro rfl
        exact of_decide_eq_true hapart hm
      apart := rfl
      present := fun m hm he => h.present m hm (by rw [hpc]; exact he) }
  | eraseLoaded n left =>
    simp only [LoraManager.tryUnLoadStep, hpc] at hs
    rw [hpc] at hwaiting
    obtain rfl := Option.some.inj hs
    -- those that hold an adapter do not hold this one
    have hother : ∀ g ∈ s.groups, g.pc.isValidated → g.loraId ≠ n := by
      rintro g hg hv rfl
      have := h.unused g hg (by simp [hpc, TryUnLoadPc.unloads])
      rw [this] at hv
      cases hv
    exact { h with
      held := fun g hg hv => Finset.mem_erase.mpr ⟨hother g hg hv, h.held g hg hv⟩
      unused := fun g hg hu => by cases hu
      waiting := hwaiting
      apart := rfl
      present := fun m hm _ => by
        obtain ⟨hne, hm⟩ := Finset.mem_erase.mp hm
        exact h.present m hm (by simp [hpc, TryUnLoadPc.erases, hne.symm])
      bounded := by
        have := Finset.card_erase_le (s := s.loaded) (a := n)
        have := h.bounded
        change (s.loaded.erase n).card + s.loadsUnderWay ≤ s.maxLoras
        omega }

/-- Every orderly step keeps the adapters in use. -/
theorem Invariant.step {op : Op} (h : s.Invariant) (hsafe : s.Orderly op)
    (hs : s.step op = some s') : s'.Invariant := by
  cases op with
  | newGroup n =>
    obtain rfl := Option.some.inj hs
    have hcount (m : LoraName) : liveCount { s with groups := ⟨n, .validateWait⟩ :: s.groups } m =
        s.liveCount m := by
      simp [liveCount, GroupPc.isLive]
    refine { h with
      counted := fun m => (hcount m).symm ▸ h.counted m
      few := fun m => (hcount m).symm ▸ h.few m
      named := fun g hg hv => ?_
      held := fun g hg hv => ?_
      unused := fun g hg hu => ?_ }
    all_goals rcases List.mem_cons.mp hg with rfl | hg
    · cases hv
    · exact h.named g hg hv
    · cases hv
    · exact h.held g hg hv
    · rfl
    · exact h.unused g hg hu
  | group g =>
    simp only [LoraManager.step] at hs
    split at hs
    · next hg =>
      obtain rfl := Option.some.inj hs
      exact h.groupStep hg hsafe
    · cases hs
  | load n path =>
    simp only [LoraManager.step] at hs
    split at hs <;> obtain rfl := Option.some.inj hs
    · exact h
    · refine { h with
        inserted := fun c hc hins => ?_ }
      rcases List.mem_cons.mp hc with rfl | hc
      · cases hins
      · exact h.inserted c hc hins
  | loadStep c success =>
    simp only [LoraManager.step] at hs
    split at hs
    · next hc =>
      obtain rfl := Option.some.inj hs
      exact h.loadStep hc hsafe
    · cases hs
  | startToUnload n =>
    obtain rfl := Option.some.inj hs
    exact { h with }
  | startToUnloadStep c =>
    simp only [LoraManager.step] at hs
    split at hs
    · obtain rfl := Option.some.inj hs
      exact h.startToUnloadStep
    · cases hs
  | tryUnLoadWaiting =>
    simp only [LoraManager.step] at hs
    split at hs
    · next hpc =>
      obtain rfl := Option.some.inj hs
      exact h.setTryUnLoad (fun _ hu => by cases hu) (fun _ _ => by rw [hpc]; rfl)
        (Finset.Subset.refl _) rfl
    · cases hs
  | nextWaiting n =>
    simp only [LoraManager.step] at hs
    split at hs
    · next left hpc =>
      split at hs
      · next hn =>
        obtain rfl := Option.some.inj hs
        have hwaiting := h.waiting
        rw [hpc] at hwaiting
        refine h.setTryUnLoad (fun _ hu => by cases hu) (fun _ _ => by rw [hpc]; rfl) ?_
          (decide_eq_true (Finset.notMem_erase n left))
        simp only [TryUnLoadPc.waiting, Finset.insert_erase hn]
        exact hwaiting
      · cases hs
    · cases hs
  | tryUnLoadStep success => exact h.tryUnLoadStep hsafe hs

/-- **Adapters in use.** When no step comes between the accesses of others, an adapter is unloaded
only when no live group uses it, it counts its groups, a group that runs has its adapter loaded,
and there are never too many adapters. -/
theorem sound_of_reaches {loaded : Finset LoraName} {maxLoras : Nat} (h₀ : loaded.card ≤ maxLoras)
    (s : LoraManager) (h : Reaches step Orderly (init loaded maxLoras) s) : s.Sound :=
  (h.invariant (I := Invariant) (invariant_init h₀)
    fun _ _ _ hI hsafe hs => hI.step hsafe hs).sound

/-- An adapter is loaded, used by a group, and unloaded after it. -/
theorem exists_sound : ∃ s, Reaches step Orderly (init ∅ 1) s ∧ s.loaded = ∅ ∧
    s.loraIdRef "a" = some 0 ∧ s.Sound := by
  let load : List Op := [.load "a" "path", .loadStep ⟨"a", .waitCount⟩ true,
    .loadStep ⟨"a", .loadedCount⟩ true, .loadStep ⟨"a", .size⟩ true,
    .loadStep ⟨"a", .execute⟩ true, .loadStep ⟨"a", .insert⟩ true]
  let build : List Op := [.newGroup "a", .group ⟨"a", .validateWait⟩,
    .group ⟨"a", .validateLoaded⟩, .group ⟨"a", .incCheck⟩, .group ⟨"a", .incValue⟩]
  let unload : List Op := [.startToUnload "a", .startToUnloadStep ⟨"a", .loadedCount⟩,
    .startToUnloadStep ⟨"a", .waitCount⟩, .startToUnloadStep ⟨"a", .get⟩,
    .startToUnloadStep ⟨"a", .insert⟩, .tryUnLoadWaiting, .nextWaiting "a",
    .tryUnLoadStep true, .tryUnLoadStep true, .tryUnLoadStep true]
  let destroy : List Op := [.group ⟨"a", .running⟩, .group ⟨"a", .decCount⟩,
    .group ⟨"a", .decHas⟩, .group ⟨"a", .decGet⟩, .group ⟨"a", .decValue⟩]
  let unload' : List Op := [.tryUnLoadWaiting, .nextWaiting "a", .tryUnLoadStep true,
    .tryUnLoadStep true, .tryUnLoadStep true, .tryUnLoadStep true, .tryUnLoadStep true,
    .tryUnLoadStep true]
  obtain ⟨s, hs, hloaded, href⟩ : ∃ s, Reaches step Orderly (init ∅ 1) s ∧ s.loaded = ∅ ∧
      s.loraIdRef "a" = some 0 :=
    exists_reaches (load ++ build ++ unload ++ destroy ++ unload') (by decide +kernel)
  exact ⟨s, hs, hloaded, href, sound_of_reaches (by decide) s hs⟩

/-- A group has been told that its adapter is available. Before it counts itself, the adapter is
found unused and unloaded. -/
theorem not_sound : ¬∀ s, Reaches step (fun _ _ => True) (init {"a"} 1) s → s.Sound := by
  intro h
  let build : List Op := [.newGroup "a", .group ⟨"a", .validateWait⟩,
    .group ⟨"a", .validateLoaded⟩]
  let unload : List Op := [.startToUnload "a", .startToUnloadStep ⟨"a", .loadedCount⟩,
    .startToUnloadStep ⟨"a", .waitCount⟩, .startToUnloadStep ⟨"a", .get⟩,
    .startToUnloadStep ⟨"a", .insert⟩, .tryUnLoadWaiting, .nextWaiting "a",
    .tryUnLoadStep true, .tryUnLoadStep true, .tryUnLoadStep true, .tryUnLoadStep true]
  obtain ⟨s, hs, hg, hloaded⟩ : ∃ s, Reaches step (fun _ _ => True) (init {"a"} 1) s ∧
      (⟨"a", .running⟩ : SequenceGroup.Lora) ∈ s.groups ∧ "a" ∉ s.loaded :=
    exists_reaches (build ++ unload ++ [.group ⟨"a", .incCheck⟩]) (by decide +kernel)
  exact hloaded ((h s hs).running _ hg rfl).1

end LoraManager

end MindieLLM
