import Ocudu.Basic.IndexedLists
import Ocudu.Phy.RxBufferPool

/-! Runs of the soft-buffer pool: where the codeblocks are, who holds a buffer, and what a buffer for a
retransmission contains. -/

namespace Ocudu.Phy

open Sched (SlotPoint)

/-! Codeblocks that a buffer takes and gives back. -/

section Buffer

variable {b : RxBufferImpl} {pool pool' : RxBufferCodeblockPool} {ids ids' : List Nat} {n k : Nat}

structure Moved (pool : RxBufferCodeblockPool) (ids : List Nat) (pool' : RxBufferCodeblockPool) (ids' : List Nat) :
    Prop where
  entries : pool'.entries = pool.entries
  perm : (pool'.freeList ++ ids').Perm (pool.freeList ++ ids)

theorem Moved.refl (pool : RxBufferCodeblockPool) (ids : List Nat) : Moved pool ids pool ids := ⟨rfl, .refl _⟩

theorem Moved.trans {pool'' : RxBufferCodeblockPool} {ids'' : List Nat} (h : Moved pool ids pool' ids')
    (h' : Moved pool' ids' pool'' ids'') : Moved pool ids pool'' ids'' :=
  ⟨h'.entries.trans h.entries, h'.perm.trans h.perm⟩

theorem Moved.length_eq (h : Moved pool ids pool' ids') :
    pool'.freeList.length + ids'.length = pool.freeList.length + ids.length := by
  have hlen := h.perm.length_eq
  rwa [List.length_append, List.length_append] at hlen

theorem freeAll_eq (ids : List Nat) (pool : RxBufferCodeblockPool) :
    pool.freeAll ids = { pool with freeList := pool.freeList ++ ids } := by
  unfold RxBufferCodeblockPool.freeAll
  induction ids generalizing pool with
  | nil => simp
  | cons cbId ids ih =>
    rw [List.foldl_cons, ih]
    simp [RxBufferCodeblockPool.free]

theorem moved_freeAll (ids : List Nat) (pool : RxBufferCodeblockPool) : Moved pool ids (pool.freeAll ids) [] := by
  rw [freeAll_eq]
  exact ⟨rfl, by rw [List.append_nil]⟩

theorem freeExcess_spec (h : RxBufferImpl.freeExcess k ids pool = (ids', pool')) (hk : k ≤ ids.length) :
    Moved pool ids pool' ids' ∧ ids'.length = ids.length - k ∧ (k = 0 → ids' = ids) := by
  induction k generalizing ids pool with
  | zero =>
    cases h
    exact ⟨.refl _ _, rfl, fun _ => rfl⟩
  | succ k ih =>
    obtain ⟨init, cbId, rfl⟩ := (List.eq_nil_or_concat ids).resolve_left (by rintro rfl; simp at hk)
    rw [List.concat_eq_append] at h hk ⊢
    rw [RxBufferImpl.freeExcess, List.getLast?_append_of_ne_nil _ (by simp)] at h
    simp only [List.getLast?_singleton, List.dropLast_concat] at h
    rw [List.length_append, List.length_singleton] at hk ⊢
    obtain ⟨hmoved, hlen, -⟩ := ih h (by omega)
    have hback : Moved pool (init ++ [cbId]) (pool.free cbId) init := by
      refine ⟨rfl, ?_⟩
      change (pool.freeList ++ [cbId] ++ init).Perm _
      rw [List.append_assoc]
      exact List.Perm.append_left _ List.perm_append_comm
    exact ⟨hback.trans hmoved, by omega, nofun⟩

theorem takeMissing_spec {enough : Bool} (h : RxBufferImpl.takeMissing k ids pool = .ok (enough, ids', pool')) :
    Moved pool ids pool' ids' ∧ (enough = true → ids'.length = ids.length + k) ∧
      (enough = false → pool.freeList.length < k) ∧ (k = 0 → enough = true ∧ ids' = ids) := by
  induction k generalizing ids pool with
  | zero =>
    cases h
    exact ⟨.refl _ _, fun _ => rfl, nofun, fun _ => ⟨rfl, rfl⟩⟩
  | succ k ih =>
    rw [RxBufferImpl.takeMissing, RxBufferCodeblockPool.reserve] at h
    cases hfree : pool.freeList with
    | nil =>
      rw [hfree] at h
      cases h
      exact ⟨.refl _ _, nofun, fun _ => Nat.succ_pos k, nofun⟩
    | cons cbId rest =>
      rw [hfree] at h
      simp only at h
      split at h
      · cases h
      · obtain ⟨hmoved, hall, hshort, -⟩ := ih h
        rw [List.length_append, List.length_singleton] at hall
        have htaken : Moved pool ids { pool with freeList := rest } (ids ++ [cbId]) := by
          refine ⟨rfl, ?_⟩
          rw [hfree, ← List.append_assoc]
          exact List.perm_append_singleton _ _
        refine ⟨htaken.trans hmoved, fun henough => ?_, fun hno => ?_, nofun⟩
        · rw [hall henough]
          omega
        · have hlt : rest.length < k := hshort hno
          rw [List.length_cons]
          omega

inductive Reserves (b : RxBufferImpl) (pool : RxBufferCodeblockPool) (n : Nat) (resetCrc : Bool) :
    RxBufferStatus → RxBufferImpl → RxBufferCodeblockPool → Prop
  | inUse (hlocked : b.currentState = .locked) : Reserves b pool n resetCrc .alreadyInUse b pool
  | done {crc : List Bool} {ids : List Nat} {p : RxBufferCodeblockPool} (hfree : b.currentState ≠ .locked)
      (hmoved : Moved pool b.codeblockIds p ids) (hids : ids.length = n) (hcrc : crc.length = n)
      (hreset : resetCrc = true → ∀ c ∈ crc, c = false)
      (hkeep : resetCrc = false → b.codeblockIds.length = n → b.crc.length = n → ids = b.codeblockIds ∧ crc = b.crc) :
      Reserves b pool n resetCrc .successful { currentState := .reserved, crc, codeblockIds := ids } p
  | short {p : RxBufferCodeblockPool} (hfree : b.currentState ≠ .locked) (hmoved : Moved pool b.codeblockIds p [])
      (hlack : pool.freeList.length + b.codeblockIds.length < n) :
      Reserves b pool n resetCrc .insufficientCb { b with currentState := .available, codeblockIds := [] } p

@[simp] theorem resizeCrc_length (crc : List Bool) (n : Nat) : (RxBufferImpl.resizeCrc crc n).length = n := by
  rw [RxBufferImpl.resizeCrc, List.length_append, List.length_take, List.length_replicate]
  omega

theorem resizeCrc_of_length {crc : List Bool} (h : crc.length = n) : RxBufferImpl.resizeCrc crc n = crc := by
  rw [RxBufferImpl.resizeCrc, h, Nat.sub_self, ← h, List.take_length, List.replicate_zero, List.append_nil]

theorem reserve_spec {resetCrc : Bool} {status : RxBufferStatus} {b' : RxBufferImpl}
    (h : b.reserve pool n resetCrc = .ok (status, b', pool')) : Reserves b pool n resetCrc status b' pool' := by
  unfold RxBufferImpl.reserve at h
  by_cases hlocked : b.currentState = .locked
  · rw [if_pos (by rw [RxBufferImpl.isLocked, hlocked]; rfl)] at h
    cases h
    exact .inUse hlocked
  rw [if_neg (by simpa [RxBufferImpl.isLocked] using hlocked)] at h
  rcases hexcess : RxBufferImpl.freeExcess (b.codeblockIds.length - n) b.codeblockIds pool with ⟨ids, p⟩
  rw [hexcess] at h
  obtain ⟨⟨enough, ids', p'⟩, htake, h⟩ := bind_eq_ok.mp h
  obtain ⟨hfreed, hlen, hnone⟩ := freeExcess_spec hexcess (Nat.sub_le _ _)
  obtain ⟨htaken, hall, hshort, hzero⟩ := takeMissing_spec htake
  have hmoved := hfreed.trans htaken
  cases enough with
  | true =>
    have hids : ids'.length = n := by
      have hlen' := hall rfl
      omega
    cases resetCrc with
    | true =>
      cases h
      refine .done hlocked hmoved hids ?_ (fun _ c hc => ?_) nofun
      · change ((RxBufferImpl.resizeCrc b.crc n).map fun _ => false).length = n
        rw [List.length_map, resizeCrc_length]
      · obtain ⟨-, -, rfl⟩ := List.mem_map.mp hc
        rfl
    | false =>
      cases h
      refine .done hlocked hmoved hids (resizeCrc_length _ _) nofun fun _ hb hcrc => ?_
      have hsame : ids = b.codeblockIds := hnone (by omega)
      have hsame' : ids' = ids := (hzero (by rw [hsame, hb, Nat.sub_self])).2
      exact ⟨hsame'.trans hsame, resizeCrc_of_length hcrc⟩
  | false =>
    cases h
    refine .short hlocked (hmoved.trans (moved_freeAll _ _)) ?_
    have hlack := hshort rfl
    have htotal := hfreed.length_eq
    omega

end Buffer

/-! What the transmissions of an identifier leave. -/

structure BufferContents where
  codeblockIds : List Nat
  crc : List Bool
  codeblocks : List CodeblockEntry
  deriving DecidableEq

inductive TransmissionPhase
  | holds (i : Nat)
  | left (contents : BufferContents)
  deriving DecidableEq

/-- The last transmission of an identifier, unless it has succeeded or expired: it holds a buffer, or
has left something in it. -/
structure Transmission where
  expiresAt : SlotPoint
  phase : TransmissionPhase

abbrev HarqLog := Nat → Option Transmission

namespace Transmission

def unlock (i : Nat) (contents : BufferContents) (t : Transmission) : Transmission :=
  if t.phase = .holds i then { t with phase := .left contents } else t

def runSlot (timeout : Nat) (slot : SlotPoint) (t : Transmission) : Option Transmission :=
  match t.phase with
  | .holds _ => some { t with expiresAt := slot.add timeout }
  | .left _ => if RxBufferPool.expired (some t.expiresAt) slot then none else some t

theorem phase_runSlot {timeout : Nat} {slot : SlotPoint} {x y : Transmission}
    (h : x.runSlot timeout slot = some y) : y.phase = x.phase := by
  unfold runSlot at h
  split at h
  · cases h
    rfl
  · split at h
    · cases h
    · cases h
      rfl

end Transmission

def RxBufferPool.contents (s : RxBufferPool) (i : Nat) : BufferContents where
  codeblockIds := (s.buffers i).codeblockIds
  crc := (s.buffers i).crc
  codeblocks := (s.buffers i).codeblockIds.map s.codeblockPool.entries

def HarqLog.after (log : HarqLog) (s : RxBufferPool) (e : RxBufferEvent) (result : Option Nat) : HarqLog :=
  match e with
  | .reserve slot id _ _ =>
    match result with
    | some i => Function.update log id (some ⟨slot.add s.cfg.expireTimeoutSlots, .holds i⟩)
    | none => log
  | .unlock i => fun id => (log id).map (·.unlock i (s.contents i))
  | .release i => fun id => (log id).filter (·.phase ≠ .holds i)
  | .runSlot slot => fun id => (log id).bind (·.runSlot s.cfg.expireTimeoutSlots slot)
  | .stop | .writeSoftBits .. | .writeDataBits .. | .writeCrc .. => log

structure LoggedPool where
  pool : RxBufferPool
  log : HarqLog

namespace LoggedPool

def new (cfg : RxBufferPoolConfig) : LoggedPool := ⟨.new cfg, fun _ => none⟩

def step (c : LoggedPool) (e : RxBufferEvent) : Except RxBufferFault LoggedPool := do
  let (result, pool) ← c.pool.react e
  return ⟨pool, c.log.after c.pool e result⟩

end LoggedPool

namespace RxBufferPool

variable {s t : RxBufferPool} {log : HarqLog} {i j id : Nat}

def idsOf (s : RxBufferPool) (i : Nat) : List Nat := (s.buffers i).codeblockIds

def places (s : RxBufferPool) : List Nat :=
  s.codeblockPool.freeList ++ (List.range s.cfg.nofBuffers).flatMap s.idsOf

structure ChangedAt (s t : RxBufferPool) (i : Nat) : Prop where
  cfg : t.cfg = s.cfg
  moved : Moved s.codeblockPool (s.buffers i).codeblockIds t.codeblockPool (t.buffers i).codeblockIds
  buffers : ∀ j, j ≠ i → t.buffers j = s.buffers j
  identifiers : ∀ j, j ≠ i → t.identifiers j = s.identifiers j
  expirations : ∀ j, j ≠ i → t.expirations j = s.expirations j

theorem ChangedAt.idsOf_eq (h : ChangedAt s t i) : t.idsOf = Function.update s.idsOf i (t.buffers i).codeblockIds := by
  funext j
  by_cases hj : j = i
  · rw [hj, Function.update_self, idsOf]
  · rw [Function.update_of_ne hj, idsOf, h.buffers j hj, idsOf]

theorem ChangedAt.places (h : ChangedAt s t i) (hi : i < s.cfg.nofBuffers) : t.places.Perm s.places := by
  obtain ⟨rest, hrest⟩ := IndexedLists.flatMap_update s.idsOf hi
  have hold : ((List.range s.cfg.nofBuffers).flatMap s.idsOf).Perm (s.idsOf i ++ rest) := by
    have hself := hrest (s.idsOf i)
    rwa [Function.update_eq_self] at hself
  rw [RxBufferPool.places, h.idsOf_eq, h.cfg]
  calc t.codeblockPool.freeList ++ (List.range s.cfg.nofBuffers).flatMap (Function.update s.idsOf i (t.idsOf i))
    List.Perm _ (t.codeblockPool.freeList ++ (t.idsOf i ++ rest)) := (hrest _).append_left _
    _ = (t.codeblockPool.freeList ++ t.idsOf i) ++ rest := (List.append_assoc ..).symm
    List.Perm _ ((s.codeblockPool.freeList ++ s.idsOf i) ++ rest) := h.moved.perm.append_right _
    _ = s.codeblockPool.freeList ++ (s.idsOf i ++ rest) := List.append_assoc ..
    List.Perm _ s.places := hold.symm.append_left _

def Partitioned (s : RxBufferPool) : Prop := s.places.Perm (List.range s.cfg.nofCodeblocks)

theorem Partitioned.eq_of_mem (h : s.Partitioned) {cbId : Nat} (hi : i < s.cfg.nofBuffers) (hj : j < s.cfg.nofBuffers)
    (hmi : cbId ∈ s.idsOf i) (hmj : cbId ∈ s.idsOf j) : i = j := by
  have hnodup : s.places.Nodup := h.nodup_iff.mpr List.nodup_range
  exact IndexedLists.eq_of_mem (List.nodup_append.mp hnodup).2.1 hi hj hmi hmj

structure KnownBuffer (s : RxBufferPool) (i : Nat) (t : Transmission) : Prop where
  expires : s.expirations i = some t.expiresAt
  held : (s.buffers i).currentState = .locked → t.phase = .holds i
  kept : (s.buffers i).currentState = .reserved → t.phase = .left (s.contents i)

structure BufferInv (s : RxBufferPool) (log : HarqLog) (i : Nat) : Prop where
  sizes : (s.buffers i).currentState ≠ .available → (s.buffers i).codeblockIds.length = (s.buffers i).crc.length
  empty : (s.buffers i).currentState = .available → (s.buffers i).codeblockIds = []
  idle : s.identifiers i = invalidBufferId → (s.buffers i).currentState = .available
  known : (s.buffers i).currentState ≠ .available → ∃ t, log (s.identifiers i) = some t ∧ s.KnownBuffer i t

structure Inv (s : RxBufferPool) (log : HarqLog) : Prop where
  places : s.Partitioned
  nodup : s.holders.Nodup
  holders : ∀ i, i ∈ s.holders ↔ i < s.cfg.nofBuffers ∧ (s.buffers i).currentState = .locked
  unique : ∀ i < s.cfg.nofBuffers, ∀ j < s.cfg.nofBuffers, s.identifiers i = s.identifiers j →
    s.identifiers i ≠ invalidBufferId → i = j
  buffer : ∀ i < s.cfg.nofBuffers, s.BufferInv log i
  holds : ∀ id t i, log id = some t → t.phase = .holds i →
    i < s.cfg.nofBuffers ∧ (s.buffers i).currentState = .locked ∧ s.identifiers i = id

theorem inv_new (cfg : RxBufferPoolConfig) : Inv (new cfg) fun _ => none where
  places := by
    have hnone : (List.range cfg.nofBuffers).flatMap (new cfg).idsOf = [] := by
      rw [List.flatMap_eq_nil_iff]
      exact fun _ _ => rfl
    change (List.range cfg.nofCodeblocks ++ (List.range cfg.nofBuffers).flatMap (new cfg).idsOf).Perm _
    rw [hnone, List.append_nil]
    exact .refl _
  nodup := .nil
  holders := fun i => iff_of_false nofun (by rintro ⟨-, h⟩; cases h)
  unique := fun _ _ _ _ _ h => absurd rfl h
  buffer := fun _ _ => ⟨fun h => absurd rfl h, fun _ => rfl, fun _ => rfl, fun h => absurd rfl h⟩
  holds := nofun

theorem contents_congr (hb : t.buffers i = s.buffers i)
    (he : ∀ cbId ∈ s.idsOf i, t.codeblockPool.entries cbId = s.codeblockPool.entries cbId) :
    t.contents i = s.contents i := by
  rw [contents, contents, hb]
  congr 1
  exact List.map_congr_left he

theorem BufferInv.congr {log' : HarqLog} (h : s.BufferInv log i) (hb : t.buffers i = s.buffers i)
    (hc : (s.buffers i).currentState = .reserved → t.contents i = s.contents i)
    (hid : t.identifiers i = s.identifiers i) (hex : t.expirations i = s.expirations i)
    (hlog : ∀ x, log (s.identifiers i) = some x → (s.buffers i).currentState ≠ .available → s.KnownBuffer i x →
      log' (s.identifiers i) = some x) : t.BufferInv log' i := by
  refine ⟨?_, ?_, ?_, ?_⟩
  · rw [hb]
    exact h.sizes
  · rw [hb]
    exact h.empty
  · rw [hid, hb]
    exact h.idle
  · rw [hid, hb]
    intro hne
    obtain ⟨x, hx, hknown⟩ := h.known hne
    refine ⟨x, hlog x hx hne hknown, ?_, ?_, ?_⟩
    · rw [hex]
      exact hknown.expires
    · rw [hb]
      exact hknown.held
    · rw [hb]
      intro hres
      rw [hc hres]
      exact hknown.kept hres

theorem ChangedAt.contents (h : ChangedAt s t i) (hj : j ≠ i) : t.contents j = s.contents j :=
  contents_congr (h.buffers j hj) fun _ _ => by rw [h.moved.entries]

theorem Inv.change {log' : HarqLog} (h : Inv s log) (hc : ChangedAt s t i) (hi : i < s.cfg.nofBuffers)
    (hnodup : t.holders.Nodup)
    (hholders : ∀ j, j ∈ t.holders ↔ j < s.cfg.nofBuffers ∧ (t.buffers j).currentState = .locked)
    (hid : t.identifiers i = s.identifiers i ∨ ∀ j < s.cfg.nofBuffers, s.identifiers j ≠ t.identifiers i)
    (hbuf : t.BufferInv log' i)
    (hlog : ∀ j x, j ≠ i → log (s.identifiers j) = some x → (s.buffers j).currentState ≠ .available →
      s.KnownBuffer j x → j < s.cfg.nofBuffers → log' (s.identifiers j) = some x)
    (hholds : ∀ id x j, log' id = some x → x.phase = .holds j →
      j < s.cfg.nofBuffers ∧ (t.buffers j).currentState = .locked ∧ t.identifiers j = id) : Inv t log' := by
  refine ⟨?_, hnodup, ?_, ?_, ?_, ?_⟩
  · rw [Partitioned, hc.cfg]
    exact (hc.places hi).trans h.places
  · rw [hc.cfg]
    exact hholders
  · rw [hc.cfg]
    have hsame : ∀ j < s.cfg.nofBuffers, j ≠ i → t.identifiers i = t.identifiers j →
        t.identifiers i = invalidBufferId := by
      intro j hj hji heq
      rw [hc.identifiers j hji] at heq
      rcases hid with hid | hid
      · by_contra hne
        rw [hid] at heq hne
        exact hji (h.unique i hi j hj heq hne).symm
      · exact absurd heq.symm (hid j hj)
    intro j hj k hk heq hne
    by_cases hji : j = i
    · by_cases hki : k = i
      · rw [hji, hki]
      · rw [hji] at heq hne
        exact absurd (hsame k hk hki heq) hne
    · by_cases hki : k = i
      · rw [hki] at heq
        rw [heq] at hne
        exact absurd (hsame j hj hji heq.symm) hne
      · rw [hc.identifiers j hji] at heq hne
        rw [hc.identifiers k hki] at heq
        exact h.unique j hj k hk heq hne
  · rw [hc.cfg]
    intro j hj
    by_cases hji : j = i
    · rw [hji]
      exact hbuf
    · exact (h.buffer j hj).congr (hc.buffers j hji) (fun _ => hc.contents hji) (hc.identifiers j hji)
        (hc.expirations j hji) fun x hx hne hknown => hlog j x hji hx hne hknown hj
  · rw [hc.cfg]
    exact hholds

theorem Inv.of_mem_holders (h : Inv s log) (hi : i ∈ s.holders) :
    i < s.cfg.nofBuffers ∧ (s.buffers i).currentState = .locked := (h.holders i).mp hi

theorem Inv.known_locked (h : Inv s log) (hi : i ∈ s.holders) :
    ∃ x, log (s.identifiers i) = some x ∧ s.expirations i = some x.expiresAt ∧ x.phase = .holds i := by
  obtain ⟨hlt, hlocked⟩ := h.of_mem_holders hi
  obtain ⟨x, hx, hknown⟩ := (h.buffer i hlt).known (by rw [hlocked]; simp)
  exact ⟨x, hx, hknown.expires, hknown.held hlocked⟩

theorem KnownBuffer.phase_ne {x : Transmission} (h : s.KnownBuffer j x) (hne : (s.buffers j).currentState ≠ .available)
    (hji : j ≠ i) : x.phase ≠ .holds i := by
  intro hx
  cases hstate : (s.buffers j).currentState with
  | available => exact hne hstate
  | reserved =>
    rw [h.kept hstate] at hx
    cases hx
  | locked =>
    rw [h.held hstate] at hx
    cases hx
    exact hji rfl

theorem Inv.holders_erase (h : Inv s log) (hc : ChangedAt s t i) (hne : (t.buffers i).currentState ≠ .locked)
    (j : Nat) : j ∈ s.holders.erase i ↔ j < s.cfg.nofBuffers ∧ (t.buffers j).currentState = .locked := by
  rw [h.nodup.mem_erase_iff]
  by_cases hj : j = i
  · rw [hj]
    exact iff_of_false (fun hc => hc.1 rfl) fun hc => hne hc.2
  · rw [hc.buffers j hj, ← h.holders j]
    exact and_iff_right hj

theorem unlock_eq (hs : s.unlock i = .ok t) : i ∈ s.holders ∧
    t = (s.setBuffer i { s.buffers i with currentState := .reserved } s.codeblockPool).dropHolder i := by
  unfold RxBufferPool.unlock at hs
  split at hs
  · cases hs
  rename_i hmem
  obtain ⟨b, hb, hs⟩ := bind_eq_ok.mp hs
  unfold RxBufferImpl.unlock at hb
  split at hb
  · cases hb
    cases hs
    exact ⟨not_not.mp hmem, rfl⟩
  · cases hb

theorem release_eq (hs : s.release i = .ok t) : i ∈ s.holders ∧
    t = (s.setBuffer i { s.buffers i with currentState := .available, codeblockIds := [] }
      (s.codeblockPool.freeAll (s.buffers i).codeblockIds)).dropHolder i := by
  unfold RxBufferPool.release at hs
  split at hs
  · cases hs
  rename_i hmem
  obtain ⟨b, hb, hs⟩ := bind_eq_ok.mp hs
  unfold RxBufferImpl.release at hb
  dsimp only at hb
  split at hb
  · cases hb
    cases hs
    exact ⟨not_not.mp hmem, rfl⟩
  · cases hb

theorem changedAt_setBuffer {b : RxBufferImpl} {pool : RxBufferCodeblockPool}
    (hmoved : Moved s.codeblockPool (s.buffers i).codeblockIds pool b.codeblockIds) :
    ChangedAt s ((s.setBuffer i b pool).dropHolder i) i where
  cfg := rfl
  moved := by
    change Moved _ _ pool (Function.update s.buffers i b i).codeblockIds
    rwa [Function.update_self]
  buffers := fun j hj => Function.update_of_ne hj _ _
  identifiers := fun _ _ => rfl
  expirations := fun _ _ => rfl

theorem Inv.unlock (h : Inv s log) (hs : s.unlock i = .ok t) : Inv t (log.after s (.unlock i) none) := by
  obtain ⟨hmem, rfl⟩ := unlock_eq hs
  obtain ⟨hi, hlocked⟩ := h.of_mem_holders hmem
  obtain ⟨x, hx, hexp, hphase⟩ := h.known_locked hmem
  have hc := changedAt_setBuffer (s := s) (i := i) (b := { s.buffers i with currentState := .reserved })
    (.refl s.codeblockPool _)
  have hbuf : ((s.setBuffer i { s.buffers i with currentState := .reserved } s.codeblockPool).dropHolder i).buffers i =
      { s.buffers i with currentState := .reserved } := Function.update_self ..
  generalize ht : (s.setBuffer i { s.buffers i with currentState := .reserved } s.codeblockPool).dropHolder i = t
    at hc hbuf ⊢
  have hid : t.identifiers i = s.identifiers i := by rw [← ht]; rfl
  have hholders : t.holders = s.holders.erase i := by rw [← ht]; rfl
  have hcontents : t.contents i = s.contents i := by
    rw [contents, hbuf, hc.moved.entries]
    rfl
  have hexp' : t.expirations i = some x.expiresAt := by rw [← ht]; exact hexp
  have hne : (t.buffers i).currentState ≠ .locked := by rw [hbuf]; simp
  have hold := h.buffer i hi
  refine h.change hc hi ?_ ?_ (.inl hid) ?_ (fun j y hji hy hav hknown _ => ?_) fun id y j hy hyj => ?_
  · rw [hholders]
    exact h.nodup.erase i
  · rw [hholders]
    exact h.holders_erase hc hne
  · refine ⟨?_, ?_, ?_, ?_⟩
    · rw [hbuf]
      exact fun _ => hold.sizes (by rw [hlocked]; simp)
    · rw [hbuf]
      exact fun hav => by cases hav
    · rw [hid, hbuf]
      intro hinv
      have hav := hold.idle hinv
      rw [hlocked] at hav
      cases hav
    · intro _
      refine ⟨{ x with phase := .left (s.contents i) }, ?_, hexp', ?_, ?_⟩
      · rw [hid]
        simp only [HarqLog.after, hx, Option.map_some, Transmission.unlock, hphase, if_true]
      · intro hl
        exact absurd hl hne
      · intro _
        rw [hcontents]
  · simp only [HarqLog.after, hy, Option.map_some, Transmission.unlock, if_neg (hknown.phase_ne hav hji)]
  · obtain ⟨z, hz, rfl⟩ := Option.map_eq_some_iff.mp hy
    unfold Transmission.unlock at hyj
    split at hyj
    · cases hyj
    · rename_i hzi
      obtain ⟨hj, hjl, hjid⟩ := h.holds id z j hz hyj
      have hji : j ≠ i := by
        rintro rfl
        exact hzi hyj
      exact ⟨hj, by rw [hc.buffers j hji]; exact hjl, by rw [hc.identifiers j hji]; exact hjid⟩

theorem Inv.release (h : Inv s log) (hs : s.release i = .ok t) : Inv t (log.after s (.release i) none) := by
  obtain ⟨hmem, rfl⟩ := release_eq hs
  obtain ⟨hi, hlocked⟩ := h.of_mem_holders hmem
  have hc := changedAt_setBuffer (s := s) (i := i)
    (b := { s.buffers i with currentState := .available, codeblockIds := [] })
    (moved_freeAll (s.buffers i).codeblockIds s.codeblockPool)
  generalize ht : (s.setBuffer i { s.buffers i with currentState := .available, codeblockIds := [] }
    (s.codeblockPool.freeAll (s.buffers i).codeblockIds)).dropHolder i = t at hc ⊢
  have hbuf : t.buffers i = { s.buffers i with currentState := .available, codeblockIds := [] } := by
    rw [← ht]
    exact Function.update_self ..
  have hid : t.identifiers i = s.identifiers i := by rw [← ht]; rfl
  have hholders : t.holders = s.holders.erase i := by rw [← ht]; rfl
  have hav : (t.buffers i).currentState = .available := by rw [hbuf]
  refine h.change hc hi ?_ ?_ (.inl hid) ⟨fun hne => absurd hav hne, fun _ => by rw [hbuf], fun _ => hav,
    fun hne => absurd hav hne⟩ (fun j y hji hy hne hknown _ => ?_) fun id y j hy hyj => ?_
  · rw [hholders]
    exact h.nodup.erase i
  · rw [hholders]
    exact h.holders_erase hc (by rw [hav]; simp)
  · simp only [HarqLog.after, hy]
    exact Option.filter_some_pos (by simpa using hknown.phase_ne hne hji)
  · obtain ⟨hz, hzi⟩ := Option.filter_eq_some_iff.mp hy
    obtain ⟨hj, hjl, hjid⟩ := h.holds id y j hz hyj
    have hji : j ≠ i := by
      rintro rfl
      simp [hyj] at hzi
    exact ⟨hj, by rw [hc.buffers j hji]; exact hjl, by rw [hc.identifiers j hji]; exact hjid⟩

theorem Inv.modifyEntry (h : Inv s log) (hmem : i ∈ s.holders) {cbId : Nat} (hcb : cbId ∈ s.idsOf i)
    (f : CodeblockEntry → CodeblockEntry) : Inv { s with codeblockPool := s.codeblockPool.modifyEntry cbId f } log := by
  obtain ⟨hi, hlocked⟩ := h.of_mem_holders hmem
  refine ⟨h.places, h.nodup, h.holders, h.unique, fun j hj => ?_, h.holds⟩
  refine (h.buffer j hj).congr rfl (fun hres => contents_congr rfl fun cbId' hcb' => ?_) rfl rfl fun _ hx _ _ => hx
  refine Function.update_of_ne ?_ _ _
  rintro rfl
  rw [h.places.eq_of_mem hj hi hcb' hcb, hlocked] at hres
  cases hres

theorem absoluteCodeblockId_ok {codeblockId cbId : Nat} (hs : s.absoluteCodeblockId i codeblockId = .ok cbId) :
    i ∈ s.holders ∧ cbId ∈ s.idsOf i := by
  unfold absoluteCodeblockId at hs
  split at hs
  · cases hs
  rename_i hmem
  split at hs
  · cases hs
  · rename_i hget
    cases hs
    exact ⟨not_not.mp hmem, List.mem_of_getElem? hget⟩

theorem Inv.writeSoftBits (h : Inv s log) {codeblockId : Nat} {bits : List Int}
    (hs : s.writeSoftBits i codeblockId bits = .ok t) : Inv t log := by
  obtain ⟨cbId, hcb, hs⟩ := bind_eq_ok.mp hs
  obtain ⟨hmem, hin⟩ := absoluteCodeblockId_ok hcb
  split at hs
  · cases hs
  · cases hs
    exact h.modifyEntry hmem hin _

theorem Inv.writeDataBits (h : Inv s log) {codeblockId : Nat} {bits : List Bool}
    (hs : s.writeDataBits i codeblockId bits = .ok t) : Inv t log := by
  obtain ⟨cbId, hcb, hs⟩ := bind_eq_ok.mp hs
  obtain ⟨hmem, hin⟩ := absoluteCodeblockId_ok hcb
  split at hs
  · cases hs
  · cases hs
    exact h.modifyEntry hmem hin _

theorem Inv.writeCrc (h : Inv s log) {codeblockId : Nat} {crcOk : Bool}
    (hs : s.writeCrc i codeblockId crcOk = .ok t) : Inv t log := by
  unfold RxBufferPool.writeCrc at hs
  split at hs
  · cases hs
  rename_i hmem
  split at hs
  · cases hs
  cases hs
  obtain ⟨hi, hlocked⟩ := h.of_mem_holders (not_not.mp hmem)
  obtain ⟨x, hx, hexp, hphase⟩ := h.known_locked (not_not.mp hmem)
  have hold := h.buffer i hi
  generalize ht : s.setBuffer i { s.buffers i with crc := (s.buffers i).crc.set codeblockId crcOk } s.codeblockPool = t
  have hbuf : t.buffers i = { s.buffers i with crc := (s.buffers i).crc.set codeblockId crcOk } := by
    rw [← ht]
    exact Function.update_self ..
  have hc : ChangedAt s t i := by
    refine ⟨by rw [← ht]; rfl, ?_, ?_, ?_, ?_⟩
    · rw [hbuf, ← ht]
      exact .refl _ _
    · rw [← ht]
      exact fun j hj => Function.update_of_ne hj _ _
    all_goals
      rw [← ht]
      exact fun _ _ => rfl
  have hid : t.identifiers i = s.identifiers i := by rw [← ht]; rfl
  have hholders : t.holders = s.holders := by rw [← ht]; rfl
  have hstate : ∀ j, (t.buffers j).currentState = (s.buffers j).currentState := by
    intro j
    by_cases hji : j = i
    · rw [hji, hbuf]
    · rw [hc.buffers j hji]
  refine h.change hc hi (by rw [hholders]; exact h.nodup) ?_ (.inl hid) ?_ (fun _ _ _ hy _ _ _ => hy)
    fun id y j hy hyj => ?_
  · intro j
    rw [hholders, hstate]
    exact h.holders j
  · refine ⟨fun hne => ?_, fun hav => ?_, fun hinv => ?_,
      fun hne => ⟨x, by rw [hid]; exact hx, ?_, fun _ => hphase, fun hres => ?_⟩⟩
    · rw [hstate] at hne
      rw [hbuf, List.length_set]
      exact hold.sizes hne
    · rw [hstate] at hav
      rw [hbuf]
      exact hold.empty hav
    · rw [hstate]
      rw [hid] at hinv
      exact hold.idle hinv
    · rw [← ht]
      exact hexp
    · rw [hstate, hlocked] at hres
      cases hres
  · obtain ⟨hj, hjl, hjid⟩ := h.holds id y j hy hyj
    refine ⟨hj, by rw [hstate]; exact hjl, ?_⟩
    rw [← ht]
    exact hjid

structure BufferSlot where
  buffer : RxBufferImpl
  identifier : Nat
  expiration : Option SlotPoint

def slotOf (s : RxBufferPool) (i : Nat) : BufferSlot := ⟨s.buffers i, s.identifiers i, s.expirations i⟩

def BufferSlot.run (timeout : Nat) (slot : SlotPoint) (x : BufferSlot) : BufferSlot :=
  if x.identifier = invalidBufferId then x
  else if x.buffer.isLocked then { x with expiration := some (slot.add timeout) }
  else if expired x.expiration slot then
    if x.buffer.currentState = .reserved then
      ⟨{ x.buffer with currentState := .available, codeblockIds := [] }, invalidBufferId, none⟩
    else x
  else if x.buffer.isFree then { x with identifier := invalidBufferId, expiration := none }
  else x

structure SlotRunAt (timeout : Nat) (slot : SlotPoint) (s t : RxBufferPool) (i : Nat) : Prop
    extends ChangedAt s t i where
  holders : t.holders = s.holders
  slotOf : t.slotOf i = (s.slotOf i).run timeout slot

theorem changedAt_refl (s : RxBufferPool) (i : Nat) : ChangedAt s s i :=
  ⟨rfl, .refl _ _, fun _ _ => rfl, fun _ _ => rfl, fun _ _ => rfl⟩

theorem changedAt_clear {b : RxBufferImpl} {pool : RxBufferCodeblockPool}
    (hmoved : Moved s.codeblockPool (s.buffers i).codeblockIds pool b.codeblockIds) :
    ChangedAt s ((s.setBuffer i b pool).clear i) i where
  cfg := rfl
  moved := by
    change Moved _ _ pool (Function.update s.buffers i b i).codeblockIds
    rwa [Function.update_self]
  buffers := fun j hj => Function.update_of_ne hj _ _
  identifiers := fun j hj => Function.update_of_ne hj _ _
  expirations := fun j hj => Function.update_of_ne hj _ _

@[simp] theorem slotOf_clear (b : RxBufferImpl) (pool : RxBufferCodeblockPool) :
    ((s.setBuffer i b pool).clear i).slotOf i = ⟨b, invalidBufferId, none⟩ := by
  simp only [slotOf, clear, setBuffer, Function.update_self]

@[simp] theorem setBuffer_eq_self (s : RxBufferPool) (i : Nat) : s.setBuffer i (s.buffers i) s.codeblockPool = s := by
  rw [setBuffer, Function.update_eq_self]

theorem runSlotBuffer_spec (slot : SlotPoint) (s : RxBufferPool) (i : Nat) :
    SlotRunAt s.cfg.expireTimeoutSlots slot s (runSlotBuffer slot s i) i := by
  have hself := changedAt_refl s i
  unfold runSlotBuffer
  split
  · rename_i hid
    exact ⟨hself, rfl, (if_pos hid).symm⟩
  rename_i hid
  have hrun : (s.slotOf i).run s.cfg.expireTimeoutSlots slot = if (s.buffers i).isLocked then
      { s.slotOf i with expiration := some (slot.add s.cfg.expireTimeoutSlots) }
    else if expired (s.expirations i) slot then
      if (s.buffers i).currentState = .reserved then
        ⟨{ s.buffers i with currentState := .available, codeblockIds := [] }, invalidBufferId, none⟩
      else s.slotOf i
    else if (s.buffers i).isFree then ⟨s.buffers i, invalidBufferId, none⟩
    else s.slotOf i := if_neg hid
  split
  · rename_i hlocked
    refine ⟨⟨rfl, .refl _ _, fun _ _ => rfl, fun _ _ => rfl, fun j hj => Function.update_of_ne hj _ _⟩, rfl, ?_⟩
    rw [hrun, if_pos hlocked]
    simp only [RxBufferPool.slotOf, Function.update_self]
  rename_i hlocked
  rw [if_neg hlocked] at hrun
  unfold checkFree RxBufferImpl.expire
  by_cases hexp : expired (s.expirations i) slot = true
  · rw [if_pos hexp] at hrun ⊢
    by_cases hres : (s.buffers i).currentState = .reserved
    · rw [if_pos hres] at hrun ⊢
      refine ⟨changedAt_clear (moved_freeAll _ _), rfl, ?_⟩
      rw [hrun]
      exact slotOf_clear _ _
    · rw [if_neg hres] at hrun ⊢
      dsimp only
      rw [setBuffer_eq_self]
      exact ⟨hself, rfl, hrun.symm⟩
  · rw [if_neg hexp] at hrun ⊢
    cases hfree : (s.buffers i).isFree with
    | true =>
      rw [hfree, if_pos rfl] at hrun
      have hclear := changedAt_clear (s := s) (i := i) (.refl s.codeblockPool (s.buffers i).codeblockIds)
      rw [setBuffer_eq_self] at hclear
      refine ⟨hclear, rfl, ?_⟩
      rw [hrun, ← slotOf_clear (s := s) (i := i) (s.buffers i) s.codeblockPool, setBuffer_eq_self]
    | false =>
      rw [hfree, if_neg (by simp)] at hrun
      exact ⟨hself, rfl, hrun.symm⟩

/-- The effect of the loop over some buffers. -/
structure SlotRun (slot : SlotPoint) (s t : RxBufferPool) (l : List Nat) : Prop where
  cfg : t.cfg = s.cfg
  holders : t.holders = s.holders
  entries : t.codeblockPool.entries = s.codeblockPool.entries
  places : t.places.Perm s.places
  slots : ∀ j, t.slotOf j = if j ∈ l then (s.slotOf j).run s.cfg.expireTimeoutSlots slot else s.slotOf j

theorem runSlot_spec (slot : SlotPoint) {l : List Nat} (hl : l.Nodup) (hlt : ∀ i ∈ l, i < s.cfg.nofBuffers) :
    SlotRun slot s (l.foldl (runSlotBuffer slot) s) l := by
  induction l generalizing s with
  | nil => exact ⟨rfl, rfl, rfl, .refl _, fun _ => rfl⟩
  | cons i l ih =>
    obtain ⟨hi, hl⟩ := List.nodup_cons.mp hl
    have hone := runSlotBuffer_spec slot s i
    have hrest := @ih (runSlotBuffer slot s i) hl fun j hj => by
      rw [hone.cfg]
      exact hlt j (List.mem_cons_of_mem _ hj)
    rw [List.foldl_cons]
    refine ⟨hrest.cfg.trans hone.cfg, hrest.holders.trans hone.holders, hrest.entries.trans hone.moved.entries,
      hrest.places.trans (hone.places (hlt i List.mem_cons_self)), fun j => ?_⟩
    rw [hrest.slots, hone.cfg]
    by_cases hji : j = i
    · rw [hji, if_neg hi, if_pos List.mem_cons_self, hone.slotOf]
    · have hsame : (runSlotBuffer slot s i).slotOf j = s.slotOf j := by
        rw [RxBufferPool.slotOf, hone.buffers j hji, hone.identifiers j hji, hone.expirations j hji,
          RxBufferPool.slotOf]
      simp only [hsame, List.mem_cons, hji, false_or]

/-- The outcomes of a round, for a buffer that is available if it has no identifier. -/
inductive BufferSlot.Ran (timeout : Nat) (slot : SlotPoint) (x : BufferSlot) : BufferSlot → Prop
  | locked (hlocked : x.buffer.currentState = .locked) :
      Ran timeout slot x { x with expiration := some (slot.add timeout) }
  | kept (hres : x.buffer.currentState = .reserved) (hexp : expired x.expiration slot = false) : Ran timeout slot x x
  | expired (hres : x.buffer.currentState = .reserved) (hexp : expired x.expiration slot = true) :
      Ran timeout slot x ⟨{ x.buffer with currentState := .available, codeblockIds := [] }, invalidBufferId, none⟩
  | idle (hav : x.buffer.currentState = .available) {u : Nat} (hid : u = x.identifier ∨ u = invalidBufferId)
      (expiration : Option SlotPoint) : Ran timeout slot x ⟨x.buffer, u, expiration⟩

theorem BufferSlot.ran {timeout : Nat} {slot : SlotPoint} {x : BufferSlot}
    (hidle : x.identifier = invalidBufferId → x.buffer.currentState = .available) :
    Ran timeout slot x (x.run timeout slot) := by
  unfold BufferSlot.run
  split
  · rename_i hid
    exact .idle (hidle hid) (.inl rfl) _
  cases hstate : x.buffer.currentState with
  | locked =>
    rw [if_pos (by rw [RxBufferImpl.isLocked, hstate]; rfl)]
    exact .locked hstate
  | reserved =>
    rw [if_neg (by rw [RxBufferImpl.isLocked, hstate]; simp)]
    cases hexp : RxBufferPool.expired x.expiration slot with
    | true =>
      rw [if_pos rfl, if_pos rfl]
      exact .expired hstate hexp
    | false =>
      rw [if_neg (by simp), if_neg (by rw [RxBufferImpl.isFree, hstate]; simp)]
      exact .kept hstate hexp
  | available =>
    rw [if_neg (by rw [RxBufferImpl.isLocked, hstate]; simp)]
    split
    · exact .idle hstate (.inl rfl) _
    · rw [if_pos (by rw [RxBufferImpl.isFree, hstate]; rfl)]
      exact .idle hstate (.inr rfl) none

abbrev ranLog (log : HarqLog) (timeout : Nat) (slot : SlotPoint) : HarqLog := fun id =>
  (log id).bind (·.runSlot timeout slot)

theorem BufferInv.ran {slot : SlotPoint} (h : s.BufferInv log i)
    (hentries : t.codeblockPool.entries = s.codeblockPool.entries)
    (hran : BufferSlot.Ran s.cfg.expireTimeoutSlots slot (s.slotOf i) (t.slotOf i)) :
    t.BufferInv (ranLog log s.cfg.expireTimeoutSlots slot) i := by
  have hcontents (hb : t.buffers i = s.buffers i) : t.contents i = s.contents i :=
    contents_congr hb fun _ _ => by rw [hentries]
  have hav (h : (t.buffers i).currentState = .available) (hids : (t.buffers i).codeblockIds = []) :
      t.BufferInv (ranLog log s.cfg.expireTimeoutSlots slot) i :=
    ⟨fun hne => absurd h hne, fun _ => hids, fun _ => h, fun hne => absurd h hne⟩
  have hbuffer : t.buffers i = (t.slotOf i).buffer := rfl
  have hidentifier : t.identifiers i = (t.slotOf i).identifier := rfl
  have hexpiration : t.expirations i = (t.slotOf i).expiration := rfl
  generalize t.slotOf i = y at hran hbuffer hidentifier hexpiration
  cases hran with
  | locked hlocked =>
    have hb : t.buffers i = s.buffers i := hbuffer
    obtain ⟨x, hx, hknown⟩ := h.known (by rw [show (s.buffers i).currentState = .locked from hlocked]; simp)
    refine ⟨by rw [hb]; exact h.sizes, by rw [hb]; exact h.empty, by rw [hb, hidentifier]; exact h.idle, fun _ => ?_⟩
    refine ⟨{ x with expiresAt := slot.add s.cfg.expireTimeoutSlots }, ?_, hexpiration,
      fun _ => hknown.held hlocked, ?_⟩
    · rw [hidentifier]
      simp only [ranLog, show log (s.slotOf i).identifier = some x from hx, Option.bind_some, Transmission.runSlot,
        hknown.held hlocked]
    · rw [hb, show (s.buffers i).currentState = .locked from hlocked]
      nofun
  | kept hres hexp =>
    refine h.congr hbuffer (fun _ => hcontents hbuffer) hidentifier hexpiration fun x hx _ hknown => ?_
    simp only [ranLog, hx, Option.bind_some, Transmission.runSlot, hknown.kept hres]
    rw [if_neg]
    rw [← hknown.expires]
    simp [hexp, show s.expirations i = (s.slotOf i).expiration from rfl]
  | expired hres hexp => exact hav (by rw [hbuffer]) (by rw [hbuffer])
  | idle hfree hid => exact hav (by rw [hbuffer]; exact hfree) (by rw [hbuffer]; exact h.empty hfree)

theorem BufferSlot.Ran.locked_iff {timeout : Nat} {slot : SlotPoint} {x y : BufferSlot} (h : Ran timeout slot x y) :
    y.buffer.currentState = .locked ↔ x.buffer.currentState = .locked := by
  cases h with
  | locked | kept | idle => exact .rfl
  | expired hres =>
    rw [hres]
    simp

theorem BufferSlot.Ran.identifier {timeout : Nat} {slot : SlotPoint} {x y : BufferSlot} (h : Ran timeout slot x y) :
    y.identifier = x.identifier ∨ y.identifier = invalidBufferId ∧ x.buffer.currentState ≠ .locked := by
  cases h with
  | locked | kept => exact .inl rfl
  | expired hres => exact .inr ⟨rfl, by rw [hres]; simp⟩
  | idle hav hid => exact hid.imp_right fun h => ⟨h, by rw [hav]; simp⟩

theorem Inv.runSlot (h : Inv s log) (slot : SlotPoint) :
    Inv (s.runSlot slot) (log.after s (.runSlot slot) none) := by
  have hs := runSlot_spec (s := s) slot List.nodup_range fun i hi => List.mem_range.mp hi
  change SlotRun slot s (s.runSlot slot) _ at hs
  generalize s.runSlot slot = t at hs ⊢
  have hran (i : Nat) (hi : i < s.cfg.nofBuffers) :
      BufferSlot.Ran s.cfg.expireTimeoutSlots slot (s.slotOf i) (t.slotOf i) := by
    rw [hs.slots, if_pos (List.mem_range.mpr hi)]
    exact BufferSlot.ran (h.buffer i hi).idle
  refine ⟨?_, ?_, ?_, ?_, ?_, ?_⟩
  · rw [Partitioned, hs.cfg]
    exact hs.places.trans h.places
  · rw [hs.holders]
    exact h.nodup
  · rw [hs.holders, hs.cfg]
    exact fun i => (h.holders i).trans (and_congr_right fun hi => (hran i hi).locked_iff.symm)
  · rw [hs.cfg]
    intro i hi j hj heq hne
    have hid := (hran i hi).identifier.resolve_right fun hid => hne hid.1
    have hjd := (hran j hj).identifier.resolve_right fun hjd => hne (heq.trans hjd.1)
    change t.identifiers i = s.identifiers i at hid
    change t.identifiers j = s.identifiers j at hjd
    rw [hid] at heq hne
    exact h.unique i hi j hj (heq.trans hjd) hne
  · rw [hs.cfg]
    exact fun i hi => (h.buffer i hi).ran hs.entries (hran i hi)
  · intro id y i hy hyi
    obtain ⟨x, hx, hxy⟩ := Option.bind_eq_some_iff.mp hy
    obtain ⟨hi, hlocked, hid⟩ := h.holds id x i hx ((Transmission.phase_runSlot hxy).symm.trans hyi)
    rw [hs.cfg]
    exact ⟨hi, (hran i hi).locked_iff.mpr hlocked,
      ((hran i hi).identifier.resolve_right fun hne => hne.2 hlocked).trans hid⟩

theorem findId_some (h : s.findId id = some i) : i < s.cfg.nofBuffers ∧ s.identifiers i = id := by
  have hmem := List.mem_range.mp (List.mem_of_find?_eq_some h)
  exact ⟨hmem, by simpa using List.find?_some h⟩

theorem findId_none (h : s.findId id = none) (hj : j < s.cfg.nofBuffers) : s.identifiers j ≠ id := by
  simpa using List.find?_eq_none.mp h j (List.mem_range.mpr hj)

theorem findFor_some {newData : Bool} (h : s.findFor id newData = some i) : i < s.cfg.nofBuffers ∧
    (s.identifiers i = id ∨ newData = true ∧ ∀ j < s.cfg.nofBuffers, s.identifiers j ≠ id) := by
  unfold findFor at h
  split at h
  · rename_i hfound
    cases h
    exact ⟨(findId_some hfound).1, .inl (findId_some hfound).2⟩
  · rename_i hnone
    split at h
    · rename_i hnew
      exact ⟨(findId_some h).1, .inr ⟨hnew, fun _ => findId_none hnone⟩⟩
    · cases h

def lockFor (s : RxBufferPool) (slot : SlotPoint) (id i : Nat) (crc : List Bool) (ids : List Nat)
    (pool : RxBufferCodeblockPool) : RxBufferPool :=
  { s with
    codeblockPool := pool
    buffers := Function.update s.buffers i ⟨.locked, crc, ids⟩
    identifiers := Function.update s.identifiers i id
    expirations := Function.update s.expirations i (some (slot.add s.cfg.expireTimeoutSlots))
    holders := i :: s.holders }

inductive ReservesFor (s : RxBufferPool) (slot : SlotPoint) (id n : Nat) (newData : Bool) :
    Option Nat → RxBufferPool → Prop
  | refused : ReservesFor s slot id n newData none s
  | short {k : Nat} {p : RxBufferCodeblockPool} (hfound : s.findFor id newData = some k)
      (hfree : (s.buffers k).currentState ≠ .locked)
      (hmoved : Moved s.codeblockPool (s.buffers k).codeblockIds p []) :
      ReservesFor s slot id n newData none
        (s.setBuffer k { s.buffers k with currentState := .available, codeblockIds := [] } p)
  | done {k : Nat} {crc : List Bool} {ids : List Nat} {p : RxBufferCodeblockPool}
      (hfound : s.findFor id newData = some k) (hfree : (s.buffers k).currentState ≠ .locked)
      (hmoved : Moved s.codeblockPool (s.buffers k).codeblockIds p ids) (hids : ids.length = n) (hcrc : crc.length = n)
      (hreset : newData = true → ∀ c ∈ crc, c = false)
      (hsize : newData = false → (s.buffers k).crc.length = n)
      (hkeep : newData = false → (s.buffers k).codeblockIds.length = n →
        ids = (s.buffers k).codeblockIds ∧ crc = (s.buffers k).crc) :
      ReservesFor s slot id n newData (some k) (s.lockFor slot id k crc ids p)

theorem reserve_stopped {slot : SlotPoint} {n : Nat} {newData : Bool} (h : s.stopped = true) :
    s.reserve slot id n newData = .ok (none, s) := if_pos h

theorem reserveFor_spec {slot : SlotPoint} {n : Nat} {newData : Bool} {result : Option Nat}
    (hs : s.reserve slot id n newData = .ok (result, t)) : ReservesFor s slot id n newData result t := by
  unfold RxBufferPool.reserve at hs
  split at hs
  · cases hs
    exact .refused
  split at hs
  · cases hs
    exact .refused
  rename_i k hfound
  unfold reserveBuffer at hs
  split at hs
  · cases hs
    exact .refused
  rename_i hsize
  obtain ⟨⟨status, b, pool⟩, hres, hs⟩ := bind_eq_ok.mp hs
  have hsize (hnew : newData = false) : (s.buffers k).crc.length = n := by
    by_contra hne
    exact hsize ⟨hnew, fun heq => hne heq.symm⟩
  dsimp only at hs
  cases reserve_spec hres with
  | inUse =>
    rw [setBuffer_eq_self, if_pos (by simp)] at hs
    cases hs
    exact .refused
  | short hfree hmoved =>
    rw [if_pos (by simp)] at hs
    cases hs
    exact .short hfound hfree hmoved
  | @done crc ids p hfree hmoved hids hcrc hreset hkeep =>
    rw [if_neg (by simp)] at hs
    simp only [uniqueRxBuffer, setBuffer, Function.update_self, RxBufferImpl.tryLock, if_true,
      Function.update_idem] at hs
    cases hs
    exact .done hfound hfree hmoved hids hcrc hreset hsize fun hnew hlen => hkeep hnew hlen (hsize hnew)

theorem changedAt_lockFor (slot : SlotPoint) (id : Nat) (crc : List Bool) {ids : List Nat}
    {pool : RxBufferCodeblockPool} (hmoved : Moved s.codeblockPool (s.buffers i).codeblockIds pool ids) :
    ChangedAt s (s.lockFor slot id i crc ids pool) i where
  cfg := rfl
  moved := by
    change Moved _ _ pool (Function.update s.buffers i _ i).codeblockIds
    rwa [Function.update_self]
  buffers := fun j hj => Function.update_of_ne hj _ _
  identifiers := fun j hj => Function.update_of_ne hj _ _
  expirations := fun j hj => Function.update_of_ne hj _ _

theorem Inv.short (h : Inv s log) {pool : RxBufferCodeblockPool} (hi : i < s.cfg.nofBuffers)
    (hfree : (s.buffers i).currentState ≠ .locked) (hmoved : Moved s.codeblockPool (s.buffers i).codeblockIds pool []) :
    Inv (s.setBuffer i { s.buffers i with currentState := .available, codeblockIds := [] } pool) log := by
  have hc : ChangedAt s (s.setBuffer i { s.buffers i with currentState := .available, codeblockIds := [] } pool) i :=
    { changedAt_setBuffer hmoved with }
  generalize ht : s.setBuffer i { s.buffers i with currentState := .available, codeblockIds := [] } pool = t at hc ⊢
  have hbuf : t.buffers i = { s.buffers i with currentState := .available, codeblockIds := [] } := by
    rw [← ht]
    exact Function.update_self ..
  have hid : t.identifiers i = s.identifiers i := by rw [← ht]; rfl
  have hholders : t.holders = s.holders := by rw [← ht]; rfl
  have hav : (t.buffers i).currentState = .available := by rw [hbuf]
  refine h.change hc hi (by rw [hholders]; exact h.nodup) (fun j => ?_) (.inl hid)
    ⟨fun hne => absurd hav hne, fun _ => by rw [hbuf], fun _ => hav, fun hne => absurd hav hne⟩
    (fun _ _ _ hx _ _ _ => hx) fun id x j hx hxj => ?_
  · rw [hholders, h.holders j]
    by_cases hji : j = i
    · rw [hji, hav]
      exact and_congr_right fun _ => iff_of_false hfree (by simp)
    · rw [hc.buffers j hji]
  · obtain ⟨hj, hjl, hjid⟩ := h.holds id x j hx hxj
    have hji : j ≠ i := by
      rintro rfl
      exact hfree hjl
    exact ⟨hj, by rw [hc.buffers j hji]; exact hjl, by rw [hc.identifiers j hji]; exact hjid⟩

theorem Inv.lockFor (h : Inv s log) {slot : SlotPoint} {n : Nat} {newData : Bool} {crc : List Bool} {ids : List Nat}
    {pool : RxBufferCodeblockPool} (hid : id ≠ invalidBufferId) (hfound : s.findFor id newData = some i)
    (hfree : (s.buffers i).currentState ≠ .locked) (hmoved : Moved s.codeblockPool (s.buffers i).codeblockIds pool ids)
    (hids : ids.length = n) (hcrc : crc.length = n) :
    Inv (s.lockFor slot id i crc ids pool)
      (Function.update log id (some ⟨slot.add s.cfg.expireTimeoutSlots, .holds i⟩)) := by
  obtain ⟨hi, hwho⟩ := findFor_some hfound
  have hc := changedAt_lockFor slot id crc hmoved
  have hbuf : (s.lockFor slot id i crc ids pool).buffers i = ⟨.locked, crc, ids⟩ := Function.update_self ..
  have hidi : (s.lockFor slot id i crc ids pool).identifiers i = id := Function.update_self ..
  have hexp : (s.lockFor slot id i crc ids pool).expirations i = some (slot.add s.cfg.expireTimeoutSlots) :=
    Function.update_self ..
  have hholders : (s.lockFor slot id i crc ids pool).holders = i :: s.holders := rfl
  generalize s.lockFor slot id i crc ids pool = t at hc hbuf hidi hexp hholders ⊢
  have hlocked : (t.buffers i).currentState = .locked := by rw [hbuf]
  have hnot : i ∉ s.holders := fun hmem => hfree (h.of_mem_holders hmem).2
  have hother (j : Nat) (hj : j < s.cfg.nofBuffers) (hji : j ≠ i) : s.identifiers j ≠ id := by
    rcases hwho with hwho | ⟨-, hwho⟩
    · intro hjid
      exact hji (h.unique j hj i hi (hjid.trans hwho.symm) (by rw [hjid]; exact hid))
    · exact hwho j hj
  refine h.change hc hi ?_ (fun j => ?_) ?_ ⟨?_, ?_, ?_, ?_⟩ (fun j x hji hx _ _ hj => ?_) fun id' x j hx hxj => ?_
  · rw [hholders]
    exact List.nodup_cons.mpr ⟨hnot, h.nodup⟩
  · rw [hholders, List.mem_cons]
    by_cases hji : j = i
    · rw [hji]
      exact iff_of_true (.inl rfl) ⟨hi, hlocked⟩
    · rw [hc.buffers j hji, ← h.holders j]
      exact or_iff_right hji
  · rw [hidi]
    exact hwho.imp Eq.symm And.right
  · rw [hbuf]
    exact fun _ => hids.trans hcrc.symm
  · rw [hlocked]
    nofun
  · rw [hidi]
    exact fun hinv => absurd hinv hid
  · refine fun _ => ⟨⟨slot.add s.cfg.expireTimeoutSlots, .holds i⟩, ?_, hexp, fun _ => rfl, ?_⟩
    · rw [hidi, Function.update_self]
    · rw [hlocked]
      nofun
  · rw [Function.update_of_ne (hother j hj hji)]
    exact hx
  · by_cases heq : id' = id
    · rw [heq, Function.update_self] at hx
      cases hx
      cases hxj
      exact ⟨hi, hlocked, hidi.trans heq.symm⟩
    · rw [Function.update_of_ne heq] at hx
      obtain ⟨hj, hjl, hjid⟩ := h.holds id' x j hx hxj
      have hji : j ≠ i := by
        rintro rfl
        exact hfree hjl
      exact ⟨hj, by rw [hc.buffers j hji]; exact hjl, by rw [hc.identifiers j hji]; exact hjid⟩

theorem Inv.reserve (h : Inv s log) {slot : SlotPoint} {n : Nat} {newData : Bool} {result : Option Nat}
    (hid : id ≠ invalidBufferId) (hs : s.reserve slot id n newData = .ok (result, t)) :
    Inv t (log.after s (.reserve slot id n newData) result) := by
  cases reserveFor_spec hs with
  | refused => exact h
  | short hfound hfree hmoved => exact h.short (findFor_some hfound).1 hfree hmoved
  | done hfound hfree hmoved hids hcrc => exact h.lockFor hid hfound hfree hmoved hids hcrc

end RxBufferPool

/-- The identifier is valid, and a retransmission does not meet a buffer that was released or emptied after
the last transmission but still has its identifier and size. -/
def RxBufferPool.NotEmptied (s : RxBufferPool) : RxBufferEvent → Prop
  | .reserve _ id n newData => id ≠ invalidBufferId ∧
      (newData = false ∧ s.stopped = false → ∀ i < s.cfg.nofBuffers, s.identifiers i = id →
        (s.buffers i).currentState = .available → (s.buffers i).crc.length ≠ n ∨ s.codeblockPool.freeList.length < n)
  | _ => True

instance (s : RxBufferPool) (e : RxBufferEvent) : Decidable (s.NotEmptied e) :=
  match e with
  | .reserve .. => inferInstanceAs (Decidable (_ ∧ (_ → _)))
  | .unlock _ => .isTrue trivial
  | .release _ => .isTrue trivial
  | .runSlot _ => .isTrue trivial
  | .stop => .isTrue trivial
  | .writeSoftBits .. => .isTrue trivial
  | .writeDataBits .. => .isTrue trivial
  | .writeCrc .. => .isTrue trivial

structure RxBufferPool.SoundReserve (s : RxBufferPool) (log : HarqLog) (id n : Nat) (newData : Bool) (i : Nat)
    (t : RxBufferPool) : Prop where
  lt : i < s.cfg.nofBuffers
  notHeld : i ∉ s.holders
  held : i ∈ t.holders
  codeblocks : (t.buffers i).codeblockIds.length = n
  crc : (t.buffers i).crc.length = n
  new : newData = true → ∀ c ∈ (t.buffers i).crc, c = false
  left : newData = false → ∃ x, log id = some x ∧ x.phase = .left (t.contents i)

namespace LoggedPool

variable {c c' : LoggedPool} {e : RxBufferEvent}

theorem step_ok (h : c.step e = .ok c') : ∃ result pool, c.pool.react e = .ok (result, pool) ∧
    c' = ⟨pool, c.log.after c.pool e result⟩ := by
  obtain ⟨⟨result, pool⟩, hreact, h⟩ := bind_eq_ok.mp h
  cases h
  exact ⟨result, pool, hreact, rfl⟩

theorem inv_step (h : RxBufferPool.Inv c.pool c.log) (hcond : c.pool.NotEmptied e) (hs : c.step e = .ok c') :
    RxBufferPool.Inv c'.pool c'.log := by
  obtain ⟨result, pool, hreact, rfl⟩ := step_ok hs
  cases e with
  | reserve => exact h.reserve hcond.1 hreact
  | unlock =>
    obtain ⟨t, ht, hreact⟩ := bind_eq_ok.mp hreact
    cases hreact
    exact h.unlock ht
  | release =>
    obtain ⟨t, ht, hreact⟩ := bind_eq_ok.mp hreact
    cases hreact
    exact h.release ht
  | runSlot slot =>
    cases hreact
    exact h.runSlot slot
  | stop =>
    cases hreact
    exact ⟨h.places, h.nodup, h.holders, h.unique,
      fun j hj => (h.buffer j hj).congr rfl (fun _ => rfl) rfl rfl fun _ hx _ _ => hx, h.holds⟩
  | writeSoftBits =>
    obtain ⟨t, ht, hreact⟩ := bind_eq_ok.mp hreact
    cases hreact
    exact h.writeSoftBits ht
  | writeDataBits =>
    obtain ⟨t, ht, hreact⟩ := bind_eq_ok.mp hreact
    cases hreact
    exact h.writeDataBits ht
  | writeCrc =>
    obtain ⟨t, ht, hreact⟩ := bind_eq_ok.mp hreact
    cases hreact
    exact h.writeCrc ht

end LoggedPool

namespace RxBufferPool

variable {s t : RxBufferPool} {log : HarqLog} {i id n : Nat} {slot : SlotPoint} {newData : Bool}

theorem Inv.soundReserve (h : Inv s log) (hcond : s.NotEmptied (.reserve slot id n newData))
    (hs : s.reserve slot id n newData = .ok (some i, t)) : s.SoundReserve log id n newData i t := by
  have hstopped : s.stopped = false := by
    by_contra hstopped
    rw [reserve_stopped (by simpa using hstopped)] at hs
    cases hs
  cases reserveFor_spec hs with
  | @done _ crc ids pool hfound hfree hmoved hids hcrc hreset hsize hkeep =>
    obtain ⟨hi, hwho⟩ := findFor_some hfound
    have hbuf : (s.lockFor slot id i crc ids pool).buffers i = ⟨.locked, crc, ids⟩ := Function.update_self ..
    refine ⟨hi, fun hmem => hfree (h.of_mem_holders hmem).2, List.mem_cons_self, by rw [hbuf]; exact hids,
      by rw [hbuf]; exact hcrc, by rw [hbuf]; exact hreset, fun hold => ?_⟩
    have hid : s.identifiers i = id := hwho.resolve_right fun hnew => by
      rw [hold] at hnew
      cases hnew.1
    cases hstate : (s.buffers i).currentState with
    | locked => exact absurd hstate hfree
    | available =>
      -- The codeblocks would all have to come from the free list.
      have hlen := hmoved.length_eq
      rw [(h.buffer i hi).empty hstate, List.length_nil, hids] at hlen
      rcases hcond.2 ⟨hold, hstopped⟩ i hi hid hstate with hne | hlt
      · exact absurd (hsize hold) hne
      · omega
    | reserved =>
      obtain ⟨x, hx, hknown⟩ := (h.buffer i hi).known (by rw [hstate]; simp)
      have hsizes := (h.buffer i hi).sizes (by rw [hstate]; simp)
      obtain ⟨rfl, rfl⟩ := hkeep hold (hsizes.trans (hsize hold))
      refine ⟨x, by rw [← hid]; exact hx, (hknown.kept hstate).trans ?_⟩
      simp only [contents, hbuf]
      rw [show (s.lockFor slot id i (s.buffers i).crc (s.buffers i).codeblockIds pool).codeblockPool.entries =
        s.codeblockPool.entries from hmoved.entries]

end RxBufferPool

namespace LoggedPool

variable {cfg : RxBufferPoolConfig} {c : LoggedPool}

/-- In every run in which no retransmission meets an emptied buffer, each codeblock is in one place, and a
reservation hands over a free buffer of the right size: cleared flags for new data, and otherwise exactly what
the last transmission left, which has neither succeeded nor expired. -/
theorem reserve_run {es : List RxBufferEvent}
    (hcond : Machine.Admits step (fun c e => c.pool.NotEmptied e) (new cfg) es)
    (hrun : Machine.run step (new cfg) es = .ok c) :
    c.pool.Partitioned ∧ ∀ slot id n newData i t, c.pool.NotEmptied (.reserve slot id n newData) →
      c.pool.reserve slot id n newData = .ok (some i, t) → c.pool.SoundReserve c.log id n newData i t := by
  have hinv : RxBufferPool.Inv c.pool c.log :=
    Machine.run_invariant (fun c => RxBufferPool.Inv c.pool c.log) (fun _ _ _ hi hadm hs => inv_step hi hadm hs)
      (RxBufferPool.inv_new cfg) hcond hrun
  exact ⟨hinv.places, fun _ _ _ _ _ _ hadm hs => hinv.soundReserve hadm hs⟩

def smallPool : RxBufferPoolConfig := ⟨1, 2, 3, 10, false⟩

def failedTransmission : List RxBufferEvent :=
  [.reserve ⟨0, 0⟩ 5 2 true, .writeSoftBits 0 1 [7], .writeCrc 0 1 true, .runSlot ⟨0, 1⟩, .unlock 0]

theorem reserve_run_failedTransmission : ∃ c t, Machine.run step (new smallPool) failedTransmission = .ok c ∧
    c.pool.reserve ⟨0, 2⟩ 5 2 false = .ok (some 0, t) ∧
    t.contents 0 = ⟨[0, 1], [false, true], [⟨[0], [false]⟩, ⟨[7], [false]⟩]⟩ ∧
    c.pool.SoundReserve c.log 5 2 false 0 t := by
  obtain ⟨c, hc⟩ := Machine.exists_of_isOk (r := Machine.run step (new smallPool) failedTransmission)
    (by decide +kernel)
  have hcond : (Machine.run step (new smallPool) failedTransmission).map
      (fun c => decide (c.pool.NotEmptied (.reserve ⟨0, 2⟩ 5 2 false))) = .ok true := by
    decide +kernel
  have hnext : (Machine.run step (new smallPool) failedTransmission).map (fun c =>
      (c.pool.reserve ⟨0, 2⟩ 5 2 false).map fun x => (x.1, x.2.contents 0)) =
        .ok (.ok (some 0, ⟨[0, 1], [false, true], [⟨[0], [false]⟩, ⟨[7], [false]⟩]⟩)) := by
    decide +kernel
  rw [hc] at hcond hnext
  obtain ⟨⟨_, t⟩, ht, hpair⟩ := map_eq_ok.mp (Except.ok.inj hnext)
  obtain ⟨rfl, hcontents⟩ := Prod.mk.inj hpair
  exact ⟨c, t, hc, ht, hcontents, (reserve_run (by decide +kernel) hc).2 _ _ _ _ _ _
    (of_decide_eq_true (Except.ok.inj hcond)) ht⟩

/-- The transport block is received, and a retransmission is still given the buffer, with a codeblock that
is marked as correct. -/
theorem reserve_after_release : ∃ c t,
    Machine.run step (new smallPool) [.reserve ⟨0, 0⟩ 5 1 true, .writeCrc 0 0 true, .release 0] = .ok c ∧
      c.pool.reserve ⟨0, 1⟩ 5 1 false = .ok (some 0, t) ∧ (t.buffers 0).crc = [true] ∧ c.log 5 = none ∧
      ¬c.pool.SoundReserve c.log 5 1 false 0 t := by
  obtain ⟨c, hc⟩ := Machine.exists_of_isOk
    (r := Machine.run step (new smallPool) [.reserve ⟨0, 0⟩ 5 1 true, .writeCrc 0 0 true, .release 0])
    (by decide +kernel)
  have hlog : (Machine.run step (new smallPool) [.reserve ⟨0, 0⟩ 5 1 true, .writeCrc 0 0 true, .release 0]).map
      (fun c => (c.log 5).isNone) = .ok true := by
    decide +kernel
  have hnext : (Machine.run step (new smallPool) [.reserve ⟨0, 0⟩ 5 1 true, .writeCrc 0 0 true, .release 0]).map
      (fun c => (c.pool.reserve ⟨0, 1⟩ 5 1 false).map fun x => (x.1, (x.2.buffers 0).crc)) =
        .ok (.ok (some 0, [true])) := by
    decide +kernel
  rw [hc] at hlog hnext
  obtain ⟨⟨_, t⟩, ht, hpair⟩ := map_eq_ok.mp (Except.ok.inj hnext)
  obtain ⟨rfl, hcrc⟩ := Prod.mk.inj hpair
  have hnone : c.log 5 = none := Option.isNone_iff_eq_none.mp (Except.ok.inj hlog)
  refine ⟨c, t, hc, ht, hcrc, hnone, fun hsound => ?_⟩
  obtain ⟨x, hx, -⟩ := hsound.left rfl
  rw [hnone] at hx
  cases hx

end LoggedPool

end Ocudu.Phy
