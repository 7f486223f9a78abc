import Mathlib.Data.Int.Notation
import Mathlib.Data.List.Nodup

/-!
# Pulling the KV cache

A decode node pulls the blocks of a batch of requests from the nodes that prefilled them. The
requests of one address are put into one item. If the prefill is parallel then the blocks of a
request come in segments, one for each address of its node, padded with -1.

## Main definitions

* `getPullKvItems`: the items of a batch
* `PullKvInfo.pulls`: what is to be pulled for a request

## Main results

* `items_paired`: the items have the pulls of all requests, each at its address and in order
-/

namespace MindieLLM.RouterImpl

abbrev ClusterId := ℕ

abbrev PullKvItem := ClusterId × List ℤ × List ℤ

structure PullKvInfo where
  dstBlockTables : List ℤ
  srcBlockTables : List ℤ
  promptLen : ℕ
  clusterId : ℕ

structure Config where
  blockSize : ℕ
  dpSize : ℕ
  pInstEnableSpCp : Bool
  remoteSpSize : ℕ
  remoteCpSize : ℕ
  dpInstIdToClusterId : ℕ → Option (List ClusterId)

/-- `p_ip_block_table_map`, with its keys in the order they came in. -/
structure BlockTableMap where
  keys : List ClusterId := []
  src : ClusterId → List ℤ := fun _ => []
  dst : ClusterId → List ℤ := fun _ => []

namespace BlockTableMap

variable (m : BlockTableMap) (ip : ClusterId)

def addKey : BlockTableMap := if ip ∈ m.keys then m else { m with keys := m.keys ++ [ip] }

def extend (src dst : List ℤ) : BlockTableMap :=
  { m with
    src := Function.update m.src ip (m.src ip ++ src)
    dst := Function.update m.dst ip (m.dst ip ++ dst) }

end BlockTableMap

/-- The ids of a segment, in front of its padding. -/
def valid (segmentLen : ℕ) (src : List ℤ) : List ℤ := (src.take segmentLen).takeWhile (· ≠ -1)

/-- `_get_id_to_block_table_map`, on the tables from `start_src` and `start_dst` on; a segment must
not end before its padding. -/
def getIdToBlockTableMap (segmentLen : ℕ) :
    List ClusterId → List ℤ → List ℤ → BlockTableMap → Option BlockTableMap
  | [], _, _, m => some m
  | ip :: ips, src, dst, m =>
    let ids := valid segmentLen src
    if ids.length < segmentLen ∧ src.length ≤ ids.length then none
    else getIdToBlockTableMap segmentLen ips (src.drop segmentLen) (dst.drop ids.length)
      (m.extend ip ids (dst.take ids.length))

variable (c : Config) (info : PullKvInfo)

/-- `p_ip_ints` -/
def Config.pIpInts : Option (List ClusterId) :=
  c.dpInstIdToClusterId (if c.dpSize = 1 then info.clusterId / 10000 else info.clusterId)

def Config.neededBlockNum : ℕ := (info.promptLen - 1 + c.blockSize - 1) / c.blockSize

/-- Rounded up. -/
def Config.segmentLen : ℕ :=
  (c.neededBlockNum info + c.remoteSpSize * c.remoteCpSize - 1) / (c.remoteSpSize * c.remoteCpSize)

def Config.reqBlockNum : ℕ :=
  if c.pInstEnableSpCp then c.segmentLen info * c.remoteSpSize * c.remoteCpSize
  else c.neededBlockNum info

/-- One iteration of the loop over the requests. -/
def addInfo (c : Config) (m : BlockTableMap) (info : PullKvInfo) : Option BlockTableMap := do
  let src := info.srcBlockTables.take (c.reqBlockNum info)
  let dst := info.dstBlockTables.take (c.reqBlockNum info)
  let ips ← c.pIpInts info
  let m := ips.foldl .addKey m
  if c.pInstEnableSpCp then getIdToBlockTableMap (c.segmentLen info) ips src dst m
  else
    -- the variable of the loop over the addresses
    let ip ← ips.getLast?
    return m.extend ip src dst

/-- `_get_pull_kv_items` -/
def getPullKvItems (infos : List PullKvInfo) : Option (List PullKvItem) := do
  let m ← infos.foldlM (addInfo c) {}
  return (m.keys.filter (m.src · ≠ [])).map fun ip => (ip, m.src ip, m.dst ip)

/-! ## What is pulled -/

/-- The blocks in segments, with their addresses. -/
def segments (segmentLen : ℕ) : List ClusterId → List ℤ → List (ClusterId × ℤ)
  | [], _ => []
  | ip :: ips, src =>
    (valid segmentLen src).map (ip, ·) ++ segments segmentLen ips (src.drop segmentLen)

/-- The blocks of a request at its prefill node, with their addresses. -/
def PullKvInfo.sources : List (ClusterId × ℤ) :=
  let src := info.srcBlockTables.take (c.reqBlockNum info)
  let ips := (c.pIpInts info).getD []
  if c.pInstEnableSpCp then segments (c.segmentLen info) ips src
  else src.map (ips.getLastD 0, ·)

/-- The blocks are pulled into those of the request here, one after the other. -/
def pair (xs : List (ClusterId × ℤ)) (dst : List ℤ) : List (ClusterId × ℤ × ℤ) :=
  List.zipWith (fun x y => (x.1, x.2, y)) xs dst

def PullKvInfo.pulls : List (ClusterId × ℤ × ℤ) :=
  pair (info.sources c) (info.dstBlockTables.take (c.reqBlockNum info))

/-- There are blocks to pull into. Without segments the request is asked for one with each block. -/
def PullKvInfo.Ready : Prop :=
  let dst := info.dstBlockTables.take (c.reqBlockNum info)
  if c.pInstEnableSpCp then (info.sources c).length ≤ dst.length
  else (info.sources c).length = dst.length

def pullsAt (ip : ClusterId) (pulls : List (ClusterId × ℤ × ℤ)) : List (ℤ × ℤ) :=
  (pulls.filter (·.1 = ip)).map (·.2)

/-- The map has what has been pulled so far. -/
structure Holds (m : BlockTableMap) (pulls : List (ClusterId × ℤ × ℤ)) : Prop where
  nodup : m.keys.Nodup
  mem_keys : ∀ ip, m.src ip ≠ [] → ip ∈ m.keys
  length : ∀ ip, (m.src ip).length = (m.dst ip).length
  zip : ∀ ip, (m.src ip).zip (m.dst ip) = pullsAt ip pulls

variable {c info} {m : BlockTableMap} {pulls : List (ClusterId × ℤ × ℤ)}

theorem pair_map (ip : ClusterId) (src dst : List ℤ) :
    pair (src.map (ip, ·)) dst = (src.zip dst).map (ip, ·) := by
  simp [pair, List.zipWith_map_left, List.zip, List.map_zipWith]

theorem pullsAt_map (ip ip' : ClusterId) (xs : List (ℤ × ℤ)) :
    pullsAt ip (xs.map (ip', ·)) = if ip' = ip then xs else [] := by
  split_ifs with h <;> simp [pullsAt, List.filter_map, Function.comp_def, h]

theorem Holds.addKey (h : Holds m pulls) (ip : ClusterId) : Holds (m.addKey ip) pulls := by
  unfold BlockTableMap.addKey
  split_ifs with hip
  · exact h
  · exact { h with
      nodup := List.nodup_append'.2 ⟨h.nodup, by simp, by simpa using hip⟩
      mem_keys := fun ip' h' => List.mem_append_left _ (h.mem_keys ip' h') }

theorem mem_addKey {ip ip' : ClusterId} :
    ip' ∈ (m.addKey ip).keys ↔ ip' ∈ m.keys ∨ ip' = ip := by
  unfold BlockTableMap.addKey
  split_ifs <;> grind

theorem Holds.addKeys (ips : List ClusterId) (h : Holds m pulls) :
    Holds (ips.foldl .addKey m) pulls ∧
      ∀ ip ∈ m.keys ++ ips, ip ∈ (ips.foldl .addKey m).keys := by
  induction ips generalizing m with
  | nil => simpa using h
  | cons ip ips ih =>
    obtain ⟨hh, hk⟩ := ih (h.addKey ip)
    exact ⟨hh, fun ip' hip' => hk ip' (by grind [mem_addKey])⟩

theorem Holds.extend {ip : ClusterId} {src dst : List ℤ} (h : Holds m pulls) (hip : ip ∈ m.keys)
    (hl : src.length = dst.length) :
    Holds (m.extend ip src dst) (pulls ++ pair (src.map (ip, ·)) dst) where
  nodup := h.nodup
  mem_keys ip' h' := by
    rcases eq_or_ne ip' ip with rfl | hne
    · exact hip
    · exact h.mem_keys ip' (by simpa [BlockTableMap.extend, hne] using h')
  length ip' := by
    rcases eq_or_ne ip' ip with rfl | hne
    · simp [BlockTableMap.extend, h.length, hl]
    · simp [BlockTableMap.extend, hne, h.length]
  zip ip' := by
    have happ : pullsAt ip' (pulls ++ pair (src.map (ip, ·)) dst) =
        pullsAt ip' pulls ++ if ip = ip' then src.zip dst else [] := by
      rw [pair_map, ← pullsAt_map]
      simp [pullsAt]
    rw [happ]
    rcases eq_or_ne ip' ip with rfl | hne
    · simp [BlockTableMap.extend, List.zip_append (h.length _), h.zip]
    · simp [BlockTableMap.extend, hne, hne.symm, h.zip]

/-- Each segment takes as many blocks here as it has ids, and the rest is left to the others. -/
theorem Holds.getIdToBlockTableMap {n : ℕ} {ips : List ClusterId} {src dst : List ℤ}
    {m' : BlockTableMap} (h : Holds m pulls) (hips : ∀ ip ∈ ips, ip ∈ m.keys)
    (hl : (segments n ips src).length ≤ dst.length)
    (hm : getIdToBlockTableMap n ips src dst m = some m') :
    Holds m' (pulls ++ pair (segments n ips src) dst) := by
  induction ips generalizing m pulls src dst with
  | nil =>
    obtain rfl : m = m' := by simpa [RouterImpl.getIdToBlockTableMap] using hm
    simpa [segments, pair] using h
  | cons ip ips ih =>
    simp only [segments, List.length_append, List.length_map] at hl
    simp only [RouterImpl.getIdToBlockTableMap, Option.ite_none_left_eq_some] at hm
    have hlen : (valid n src).length = (dst.take (valid n src).length).length := by
      rw [List.length_take]; omega
    have hh := ih (h.extend (hips ip (by simp)) hlen)
      (fun ip' h' => hips ip' (List.mem_cons_of_mem _ h')) (by rw [List.length_drop]; omega) hm.2
    have hcut : pair (segments n (ip :: ips) src) dst =
        pair ((valid n src).map (ip, ·)) (dst.take (valid n src).length) ++
          pair (segments n ips (src.drop n)) (dst.drop (valid n src).length) := by
      conv_lhs => rw [← List.take_append_drop (valid n src).length dst]
      exact List.zipWith_append (by simpa using hlen)
    rwa [hcut, ← List.append_assoc]

theorem Holds.addInfo {m' : BlockTableMap} (h : Holds m pulls) (hr : info.Ready c)
    (hm : addInfo c m info = some m') : Holds m' (pulls ++ info.pulls c) := by
  obtain ⟨ips, hips, hm⟩ := Option.bind_eq_some_iff.1 hm
  obtain ⟨hh, hk⟩ := h.addKeys ips
  unfold PullKvInfo.Ready at hr
  unfold PullKvInfo.pulls
  by_cases hc : c.pInstEnableSpCp
  · simp only [hc, if_true, PullKvInfo.sources, hips, Option.getD_some] at hm hr ⊢
    exact hh.getIdToBlockTableMap (fun ip h' => hk ip (by simp [h'])) hr hm
  · simp only [hc, Bool.false_eq_true, if_false, PullKvInfo.sources, hips, Option.getD_some,
      List.length_map] at hm hr ⊢
    obtain ⟨ip, hip, hm⟩ := Option.bind_eq_some_iff.1 hm
    obtain rfl := Option.some.inj hm
    rw [List.getLastD_eq_getLast?, hip]
    exact hh.extend (hk ip (by simp [List.mem_of_getLast? hip])) hr

theorem Holds.foldlM {infos : List PullKvInfo} {m' : BlockTableMap} (h : Holds m pulls)
    (hr : ∀ info ∈ infos, info.Ready c)
    (hm : infos.foldlM (RouterImpl.addInfo c) m = some m') :
    Holds m' (pulls ++ infos.flatMap (·.pulls c)) := by
  induction infos generalizing m pulls with
  | nil =>
    obtain rfl : m = m' := by simpa using hm
    simpa using h
  | cons info infos ih =>
    rw [List.foldlM_cons] at hm
    obtain ⟨m₁, h₁, hm⟩ := Option.bind_eq_some_iff.1 hm
    rw [List.flatMap_cons, ← List.append_assoc]
    exact ih (h.addInfo (hr info (by simp)) h₁) (fun i hi => hr i (by simp [hi])) hm

/-- An address has one item, which pairs its blocks and asks for what is to be pulled from there. -/
def Paired (c : Config) (infos : List PullKvInfo) (items : List PullKvItem) : Prop :=
  (items.map (·.1)).Nodup ∧ (∀ x ∈ items, x.2.1.length = x.2.2.length) ∧
    ∀ ip, (items.filter (·.1 = ip)).flatMap (fun x => x.2.1.zip x.2.2) =
      pullsAt ip (infos.flatMap (·.pulls c))

theorem items_paired {infos : List PullKvInfo} {items : List PullKvItem}
    (hr : ∀ info ∈ infos, info.Ready c) (hi : getPullKvItems c infos = some items) :
    Paired c infos items := by
  obtain ⟨m, hm, hi⟩ := Option.bind_eq_some_iff.1 hi
  obtain rfl := Option.some.inj hi
  have h : Holds {} [] := ⟨.nil, by simp, by simp, by simp [pullsAt]⟩
  replace h := h.foldlM hr hm
  simp only [List.nil_append] at h
  have hn := h.nodup.filter (m.src · ≠ [])
  refine ⟨by simpa [Function.comp_def] using hn, fun x hx => ?_, fun ip => ?_⟩
  · obtain ⟨ip, -, rfl⟩ := List.mem_map.1 hx
    exact h.length ip
  rw [← h.zip ip, List.filter_map]
  -- the address has one item, or none if nothing is pulled from it
  show List.flatMap _ (List.map _ (List.filter (· = ip) _)) = _
  rw [List.filter_eq, hn.count]
  split_ifs with hip
  · simp
  · have hnil : m.src ip = [] := by
      by_contra hne
      exact hip (List.mem_filter.2 ⟨h.mem_keys ip hne, by simpa using hne⟩)
    simp [hnil]

/-- The second of two requests has one block. The blocks come in segments, or all from the last
address. -/
theorem items_paired_two :
    (let c : Config := ⟨2, 1, true, 2, 1, fun _ => some [3, 4]⟩
      let infos : List PullKvInfo := [⟨[7, 8, 9], [1, 2, 3, -1], 6, 0⟩, ⟨[5, 6], [1, -1], 3, 0⟩]
      Paired c infos [(3, [1, 2, 1], [7, 8, 5]), (4, [3], [9])]) ∧
    (let c : Config := ⟨2, 1, false, 2, 1, fun _ => some [3, 4]⟩
      let infos : List PullKvInfo := [⟨[7, 8, 9], [1, 2, 3], 6, 0⟩, ⟨[5, 6], [1], 3, 0⟩]
      Paired c infos [(4, [1, 2, 3, 1], [7, 8, 9, 5])]) :=
  ⟨items_paired (by simp [PullKvInfo.Ready]; decide) (by decide),
    items_paired (by simp [PullKvInfo.Ready]; decide) (by decide)⟩

end MindieLLM.RouterImpl
