import Ocudu.Basic.IndexedLists
import Ocudu.Mac.RntiManager

/-! `cell_dl_harq_buffer_pool.cpp`: the buffers of the DL HARQ processes of a cell. An element of the
pool is named by its index. -/

namespace Ocudu.Mac

def maxNofHarqs : Nat := 32

def dlHarqAllocBatch : Nat := maxNofHarqs * 2

def dlHarqAllocMinibatch : Nat := 2

def dlHarqPoolSize : Nat := maxNofDuUes * maxNofHarqs

/-- `poolGrowthCancelled` names a flag in `cancelled`; a task of the executor captures a pointer to such
a flag. -/
structure HarqBufferPool where
  cellBuffers : Nat → List Nat
  bufferCache : List Nat
  poolElemIndex : Nat
  refCnt : Nat → Nat
  poolGrowthCancelled : Nat
  cancelled : Nat → Bool
  tasks : List (Option Nat)

inductive HarqPoolFault
  | assertion
  /-- The executor has no task, or nobody holds the reference. -/
  | notThere
  deriving DecidableEq

inductive HarqPoolEvent
  | allocate (ue nofHarqs : Nat) (full : Bool)
  | deallocate (ue : Nat)
  | clear
  | acquire (ue hId : Nat)
  | copy (buffer : Nat)
  | release (buffer : Nat)
  | runTask (full : Bool)

namespace HarqBufferPool

variable (s : HarqBufferPool)

def isPoolDepleted : Bool := s.poolElemIndex == 0

def allocateFromPool : Option (Nat × HarqBufferPool) :=
  if s.isPoolDepleted then none
  else some (s.poolElemIndex - 1, { s with poolElemIndex := s.poolElemIndex - 1 })

def takeUnreferenced (refCnt : Nat → Nat) : List Nat → Option (Nat × List Nat)
  | [] => none
  | b :: bs => if refCnt b = 0 then some (b, bs) else (takeUnreferenced refCnt bs).map fun p => (p.1, b :: p.2)

def allocateFromCache : Option (Nat × HarqBufferPool) :=
  (takeUnreferenced s.refCnt s.bufferCache.reverse).map fun p => (p.1, { s with bufferCache := p.2.reverse })

def fillCache : Nat → HarqBufferPool → HarqBufferPool × Bool
  | 0, s => (s, true)
  | n + 1, s =>
    match s.allocateFromPool with
    | some (buffer, s) => fillCache n { s with bufferCache := s.bufferCache ++ [buffer] }
    | none => (s, false)

def new : HarqBufferPool :=
  (fillCache dlHarqAllocBatch
    { cellBuffers := fun _ => [], bufferCache := [], poolElemIndex := dlHarqPoolSize, refCnt := fun _ => 0
      poolGrowthCancelled := 0, cancelled := fun _ => false, tasks := [] }).1

def growCacheInBackground (full : Bool) : HarqBufferPool :=
  if s.isPoolDepleted then s
  else if dlHarqAllocBatch ≤ s.bufferCache.length then s
  else if full then s
  else { s with tasks := s.tasks ++ [some s.poolGrowthCancelled] }

def growthTask (cancelFlagCpy : Option Nat) (full : Bool) : HarqBufferPool :=
  if cancelFlagCpy.isSome then s
  else
    match fillCache dlHarqAllocMinibatch s with
    | (s, true) => s.growCacheInBackground full
    | (s, false) => s

def nextBuffer : Option (Nat × HarqBufferPool) :=
  if s.bufferCache = [] then s.allocateFromPool else s.allocateFromCache

/-- The loop that gives `n` more buffers to a UE; `false` if it returns before. -/
def growUeHarqs : Nat → HarqBufferPool → List Nat → HarqBufferPool × List Nat × Bool
  | 0, s, ueHarqs => (s, ueHarqs, true)
  | n + 1, s, ueHarqs =>
    match s.nextBuffer with
    | some (buffer, s) => growUeHarqs n s (ueHarqs ++ [buffer])
    | none => (s, ueHarqs, false)

def setUeHarqs (ue : Nat) (ueHarqs : List Nat) : HarqBufferPool :=
  { s with cellBuffers := Function.update s.cellBuffers ue ueHarqs }

def allocateUeBuffers (ue nofHarqs : Nat) (full : Bool) : Except HarqPoolFault HarqBufferPool :=
  if maxNofDuUes ≤ ue ∨ maxNofHarqs < nofHarqs then .error .assertion
  else if s.cellBuffers ue ≠ [] then .ok s
  else
    match growUeHarqs nofHarqs s [] with
    | (s, ueHarqs, true) => .ok ((s.setUeHarqs ue ueHarqs).growCacheInBackground full)
    | (s, ueHarqs, false) => .ok (s.setUeHarqs ue ueHarqs)

def moveToCache (ue : Nat) : HarqBufferPool :=
  { s with
    bufferCache := s.bufferCache ++ s.cellBuffers ue
    cellBuffers := Function.update s.cellBuffers ue [] }

def deallocateUeBuffers (ue : Nat) : Except HarqPoolFault HarqBufferPool :=
  if maxNofDuUes ≤ ue then .error .assertion else .ok (s.moveToCache ue)

def clear : HarqBufferPool :=
  (List.range maxNofDuUes).foldl moveToCache
    { s with
      cancelled := Function.update s.cancelled s.poolGrowthCancelled true
      poolGrowthCancelled := s.poolGrowthCancelled + 1 }

def acquire (ue hId : Nat) : Except HarqPoolFault HarqBufferPool :=
  if maxNofDuUes ≤ ue then .error .assertion
  else
    match (s.cellBuffers ue)[hId]? with
    | none => .error .assertion
    | some b => if s.refCnt b ≠ 0 then .ok s else .ok { s with refCnt := Function.update s.refCnt b 1 }

/-- A reference is copied or dropped by who has one. -/
def changeRefCnt (buffer : Nat) (f : Nat → Nat) : Except HarqPoolFault HarqBufferPool :=
  if s.refCnt buffer = 0 then .error .notThere
  else .ok { s with refCnt := Function.update s.refCnt buffer (f (s.refCnt buffer)) }

def runTask (full : Bool) : Except HarqPoolFault HarqBufferPool :=
  match s.tasks with
  | [] => .error .notThere
  | task :: tasks => .ok (growthTask { s with tasks } task full)

def step : HarqPoolEvent → Except HarqPoolFault HarqBufferPool
  | .allocate ue nofHarqs full => s.allocateUeBuffers ue nofHarqs full
  | .deallocate ue => s.deallocateUeBuffers ue
  | .clear => .ok s.clear
  | .acquire ue hId => s.acquire ue hId
  | .copy buffer => s.changeRefCnt buffer (· + 1)
  | .release buffer => s.changeRefCnt buffer (· - 1)
  | .runTask full => s.runTask full

def places : List Nat :=
  List.range s.poolElemIndex ++ s.bufferCache ++ (List.range maxNofDuUes).flatMap s.cellBuffers

def unreferenced : Nat := s.bufferCache.countP (s.refCnt · = 0)

/-- The UE has no buffers, and the cache has enough that are not in use, or none that is. The executor
takes the task. The last task that grows the cache has nothing to do. -/
def Steady : HarqPoolEvent → Prop
  | .allocate ue nofHarqs full =>
    s.cellBuffers ue = [] ∧ (nofHarqs ≤ s.unreferenced ∨ ∀ b ∈ s.bufferCache, s.refCnt b = 0) ∧ full = false
  | .runTask _ => s.tasks.length ≤ 1 → dlHarqAllocBatch ≤ s.bufferCache.length ∨ s.poolElemIndex = 0
  | _ => True

instance (s : HarqBufferPool) (e : HarqPoolEvent) : Decidable (s.Steady e) :=
  match e with
  | .allocate .. => inferInstanceAs (Decidable (_ ∧ _ ∧ _))
  | .runTask _ => inferInstanceAs (Decidable (_ → _))
  | .deallocate _ => .isTrue trivial
  | .clear => .isTrue trivial
  | .acquire .. => .isTrue trivial
  | .copy _ => .isTrue trivial
  | .release _ => .isTrue trivial

/-- The last part is only for runs whose steps are `steady`. -/
structure Inv (steady : Prop) (s : HarqBufferPool) : Prop where
  places : s.places.Perm (List.range dlHarqPoolSize)
  untouched : ∀ b < s.poolElemIndex, s.refCnt b = 0
  pointers : ∀ task ∈ s.tasks, task.isSome = true
  grown : steady → s.tasks = [] → dlHarqAllocBatch ≤ s.bufferCache.length ∨ s.poolElemIndex = 0

variable {steady : Prop} {s t : HarqBufferPool}

theorem takeUnreferenced_some {refCnt : Nat → Nat} {l r : List Nat} {b : Nat}
    (h : takeUnreferenced refCnt l = some (b, r)) : refCnt b = 0 ∧ l.Perm (b :: r) := by
  induction l generalizing r with
  | nil => cases h
  | cons a l ih =>
    rw [takeUnreferenced] at h
    split_ifs at h with ha
    · cases h
      exact ⟨ha, .refl _⟩
    · obtain ⟨⟨c, q⟩, hq, hp⟩ := Option.map_eq_some_iff.mp h
      cases hp
      obtain ⟨hb, hperm⟩ := ih hq
      exact ⟨hb, (hperm.cons a).trans (.swap ..)⟩

theorem takeUnreferenced_none {refCnt : Nat → Nat} {l : List Nat} (h : takeUnreferenced refCnt l = none) :
    ∀ b ∈ l, refCnt b ≠ 0 := by
  induction l with
  | nil => simp
  | cons a l ih =>
    rw [takeUnreferenced] at h
    split_ifs at h with ha
    intro b hb
    rcases List.mem_cons.mp hb with rfl | hb
    · exact ha
    · exact ih (Option.map_eq_none_iff.mp h) b hb

theorem allocateFromPool_some {b : Nat} (h : s.allocateFromPool = some (b, t)) :
    s.poolElemIndex = b + 1 ∧ t = { s with poolElemIndex := b } := by
  unfold allocateFromPool isPoolDepleted at h
  split_ifs at h with hp
  cases h
  have hpos : s.poolElemIndex ≠ 0 := by simpa using hp
  exact ⟨(Nat.succ_pred_eq_of_ne_zero hpos).symm, rfl⟩

theorem allocateFromPool_none (h : s.allocateFromPool = none) : s.poolElemIndex = 0 := by
  unfold allocateFromPool isPoolDepleted at h
  split_ifs at h with hp
  simpa using hp

theorem allocateFromCache_some {b : Nat} (h : s.allocateFromCache = some (b, t)) :
    s.refCnt b = 0 ∧ ∃ cache, s.bufferCache.Perm (b :: cache) ∧ t = { s with bufferCache := cache } := by
  obtain ⟨⟨c, r⟩, hr, hp⟩ := Option.map_eq_some_iff.mp h
  cases hp
  obtain ⟨hb, hperm⟩ := takeUnreferenced_some hr
  refine ⟨hb, _, ?_, rfl⟩
  exact (s.bufferCache.reverse_perm.symm.trans hperm).trans (List.Perm.cons _ r.reverse_perm.symm)

theorem allocateFromCache_none (h : s.allocateFromCache = none) : ∀ b ∈ s.bufferCache, s.refCnt b ≠ 0 :=
  fun b hb => takeUnreferenced_none (Option.map_eq_none_iff.mp h) b (List.mem_reverse.mpr hb)

def spare (s : HarqBufferPool) : List Nat := List.range s.poolElemIndex ++ s.bufferCache

/-- What one turn of the loop does. -/
structure Gives (s : HarqBufferPool) (b : Nat) (t : HarqBufferPool) : Prop where
  frame : t = { s with bufferCache := t.bufferCache, poolElemIndex := t.poolElemIndex }
  spare : s.spare.Perm (b :: t.spare)
  index : t.poolElemIndex ≤ s.poolElemIndex
  cache : ∀ c ∈ t.bufferCache, c ∈ s.bufferCache
  count : s.unreferenced + s.poolElemIndex = t.unreferenced + t.poolElemIndex + 1
  unref : s.unreferenced ≤ t.unreferenced + 1
  ref : s.refCnt b = 0 ∨ b < s.poolElemIndex

theorem nextBuffer_some {b : Nat} (h : s.nextBuffer = some (b, t)) : Gives s b t := by
  unfold nextBuffer at h
  split_ifs at h with hempty
  · obtain ⟨hp, rfl⟩ := allocateFromPool_some h
    have hunref : s.unreferenced = 0 := by rw [unreferenced, hempty, List.countP_nil]
    refine ⟨rfl, ?_, hp ▸ Nat.le_succ b, fun c hc => hc, ?_, ?_, .inr (hp ▸ Nat.lt_succ_self b)⟩
    · rw [HarqBufferPool.spare, HarqBufferPool.spare, hp, hempty, List.range_succ, List.append_nil, List.append_nil]
      exact List.perm_append_singleton b (List.range b)
    · change s.unreferenced + _ = s.unreferenced + b + 1
      rw [hp]
      rfl
    · rw [hunref]
      exact Nat.zero_le _
  · obtain ⟨hb, cache, hperm, rfl⟩ := allocateFromCache_some h
    have hcount : s.unreferenced = HarqBufferPool.unreferenced { s with bufferCache := cache } + 1 := by
      rw [unreferenced, hperm.countP_eq, List.countP_cons_of_pos (by simpa using hb), unreferenced]
    refine ⟨rfl, ?_, le_refl _, fun c hc => hperm.mem_iff.mpr (List.mem_cons_of_mem b hc), ?_, ?_, .inl hb⟩
    · rw [HarqBufferPool.spare, HarqBufferPool.spare]
      exact (hperm.append_left _).trans List.perm_middle
    · rw [hcount]
      change _ + 1 + s.poolElemIndex = _ + s.poolElemIndex + 1
      omega
    · exact hcount.le

theorem nextBuffer_none (h : s.nextBuffer = none) (hpos : 0 < s.unreferenced ∨ ∀ b ∈ s.bufferCache, s.refCnt b = 0) :
    s.poolElemIndex = 0 ∧ s.unreferenced = 0 := by
  unfold nextBuffer at h
  split_ifs at h with hempty
  · exact ⟨allocateFromPool_none h, by rw [unreferenced, hempty, List.countP_nil]⟩
  · have hused := allocateFromCache_none h
    exfalso
    rcases hpos with hpos | hall
    · obtain ⟨b, hb, hzero⟩ := List.countP_pos_iff.mp hpos
      exact hused b hb (of_decide_eq_true hzero)
    · obtain ⟨b, hb⟩ := List.exists_mem_of_ne_nil _ hempty
      exact hused b hb (hall b hb)

theorem growUeHarqs_frame {n : Nat} {l l' : List Nat} {done : Bool} (h : growUeHarqs n s l = (t, l', done)) :
    t = { s with bufferCache := t.bufferCache, poolElemIndex := t.poolElemIndex } ∧
      (t.spare ++ l').Perm (s.spare ++ l) ∧ t.poolElemIndex ≤ s.poolElemIndex := by
  induction n generalizing s l with
  | zero =>
    cases h
    exact ⟨rfl, .refl _, le_refl _⟩
  | succ n ih =>
    rw [growUeHarqs] at h
    cases hb : s.nextBuffer with
    | none =>
      rw [hb] at h
      cases h
      exact ⟨rfl, .refl _, le_refl _⟩
    | some p =>
      obtain ⟨b, u⟩ := p
      rw [hb] at h
      have hg := nextBuffer_some hb
      obtain ⟨hframe, hperm, hindex⟩ := ih h
      refine ⟨?_, hperm.trans ?_, hindex.trans hg.index⟩
      · rw [hframe, hg.frame]
      · calc u.spare ++ (l ++ [b])
          _ = (u.spare ++ l) ++ [b] := (List.append_assoc ..).symm
          List.Perm _ (b :: (u.spare ++ l)) := List.perm_append_singleton ..
          List.Perm _ (s.spare ++ l) := (hg.spare.append_right l).symm

theorem growUeHarqs_ref {n : Nat} {l l' : List Nat} {done : Bool} (h : growUeHarqs n s l = (t, l', done))
    (huntouched : ∀ b < s.poolElemIndex, s.refCnt b = 0) (hl : ∀ b ∈ l, s.refCnt b = 0) :
    ∀ b ∈ l', s.refCnt b = 0 := by
  induction n generalizing s l with
  | zero =>
    cases h
    exact hl
  | succ n ih =>
    rw [growUeHarqs] at h
    cases hb : s.nextBuffer with
    | none =>
      rw [hb] at h
      cases h
      exact hl
    | some p =>
      obtain ⟨b, u⟩ := p
      rw [hb] at h
      have hg := nextBuffer_some hb
      have href : u.refCnt = s.refCnt := by rw [hg.frame]
      rw [← href]
      refine ih h (fun c hc => ?_) fun c hc => ?_
      · rw [href]
        exact huntouched c (hc.trans_le hg.index)
      · rw [href]
        rcases List.mem_append.mp hc with hc | hc
        · exact hl c hc
        · rw [List.mem_singleton.mp hc]
          exact hg.ref.elim id (huntouched b)

theorem growUeHarqs_done {n : Nat} {l l' : List Nat} {done : Bool} (h : growUeHarqs n s l = (t, l', done))
    (hcond : n ≤ s.unreferenced ∨ ∀ b ∈ s.bufferCache, s.refCnt b = 0) :
    (done = true ∧ l'.length = l.length + n) ∨
      (done = false ∧ t.poolElemIndex = 0 ∧ s.unreferenced + s.poolElemIndex < n) := by
  induction n generalizing s l with
  | zero =>
    cases h
    exact .inl ⟨rfl, rfl⟩
  | succ n ih =>
    rw [growUeHarqs] at h
    cases hb : s.nextBuffer with
    | none =>
      rw [hb] at h
      cases h
      obtain ⟨hp, hu⟩ := nextBuffer_none hb (hcond.imp_left Nat.zero_lt_of_lt)
      exact .inr ⟨rfl, hp, by omega⟩
    | some p =>
      obtain ⟨b, u⟩ := p
      rw [hb] at h
      have hg := nextBuffer_some hb
      have hnext : n ≤ u.unreferenced ∨ ∀ c ∈ u.bufferCache, u.refCnt c = 0 := by
        rcases hcond with hle | hall
        · exact .inl (Nat.le_of_succ_le_succ (hle.trans hg.unref))
        · refine .inr fun c hc => ?_
          rw [show u.refCnt = s.refCnt by rw [hg.frame]]
          exact hall c (hg.cache c hc)
      have hcount := hg.count
      rcases ih h hnext with ⟨hd, hlen⟩ | ⟨hd, hp, hlt⟩
      · refine .inl ⟨hd, ?_⟩
        rw [hlen, List.length_append, List.length_singleton]
        omega
      · exact .inr ⟨hd, hp, by omega⟩

theorem places_setUeHarqs {ue : Nat} (hue : ue < maxNofDuUes) :
    ∃ rest, ∀ (u : HarqBufferPool) l, u.cellBuffers = s.cellBuffers →
      (u.setUeHarqs ue l).places.Perm (u.spare ++ l ++ rest) := by
  obtain ⟨rest, hrest⟩ := IndexedLists.flatMap_update s.cellBuffers hue
  refine ⟨rest, fun u l hu => ?_⟩
  have hcells : (u.setUeHarqs ue l).cellBuffers = Function.update s.cellBuffers ue l := by
    rw [setUeHarqs, hu]
  rw [places, hcells, List.append_assoc u.spare]
  exact (hrest l).append_left _

@[simp] theorem setUeHarqs_self (ue : Nat) : s.setUeHarqs ue (s.cellBuffers ue) = s := by
  rw [setUeHarqs, Function.update_eq_self]

theorem Inv.moveToCache (h : Inv steady s) {ue : Nat} (hue : ue < maxNofDuUes) : Inv steady (s.moveToCache ue) := by
  obtain ⟨rest, hrest⟩ := places_setUeHarqs (s := s) hue
  refine ⟨?_, h.untouched, h.pointers, fun hs ht => (h.grown hs ht).imp_left fun hle => ?_⟩
  · have hbefore := hrest s (s.cellBuffers ue) rfl
    have hafter := hrest { s with bufferCache := s.bufferCache ++ s.cellBuffers ue } [] rfl
    rw [setUeHarqs_self] at hbefore
    refine List.Perm.trans (hafter.trans ?_) h.places
    refine List.Perm.trans ?_ hbefore.symm
    rw [List.append_nil, spare, spare, List.append_assoc, List.append_assoc, List.append_assoc, List.append_assoc]
  · change _ ≤ (s.bufferCache ++ s.cellBuffers ue).length
    rw [List.length_append]
    exact Nat.le_add_right_of_le hle

theorem Inv.clear (h : Inv steady s) : Inv steady s.clear := by
  have hfold : ∀ (l : List Nat) (u : HarqBufferPool), (∀ ue ∈ l, ue < maxNofDuUes) → Inv steady u →
      Inv steady (l.foldl HarqBufferPool.moveToCache u) := by
    intro l
    induction l with
    | nil => exact fun _ _ hu => hu
    | cons ue l ih =>
      exact fun u hl hu => ih _ (fun v hv => hl v (List.mem_cons_of_mem _ hv))
        (hu.moveToCache (hl ue List.mem_cons_self))
  exact hfold _ _ (fun ue hue => List.mem_range.mp hue) ⟨h.places, h.untouched, h.pointers, h.grown⟩

theorem Inv.touched (h : Inv steady s) {ue b : Nat} (hue : ue < maxNofDuUes) (hb : b ∈ s.cellBuffers ue) :
    s.poolElemIndex ≤ b := by
  by_contra hlt
  have hnodup : s.places.Nodup := h.places.nodup_iff.mpr List.nodup_range
  rw [HarqBufferPool.places, List.append_assoc] at hnodup
  refine (List.nodup_append.mp hnodup).2.2 b (List.mem_range.mpr (not_le.mp hlt)) b ?_ rfl
  exact List.mem_append_right _ (List.mem_flatMap.mpr ⟨ue, List.mem_range.mpr hue, hb⟩)

theorem Inv.updateRefCnt (h : Inv steady s) {b n : Nat} (hb : s.poolElemIndex ≤ b) :
    Inv steady { s with refCnt := Function.update s.refCnt b n } := by
  refine ⟨h.places, fun c (hc : c < s.poolElemIndex) => ?_, h.pointers, h.grown⟩
  change Function.update s.refCnt b n c = 0
  rw [Function.update_of_ne (hc.trans_le hb).ne]
  exact h.untouched c hc

theorem Inv.changeRefCnt (h : Inv steady s) {b : Nat} {f : Nat → Nat} (ht : s.changeRefCnt b f = .ok t) :
    Inv steady t := by
  unfold HarqBufferPool.changeRefCnt at ht
  split_ifs at ht with hzero
  cases ht
  refine h.updateRefCnt ?_
  by_contra hlt
  exact hzero (h.untouched b (not_le.mp hlt))

theorem growCacheInBackground_frame (full : Bool) :
    s.growCacheInBackground full = { s with tasks := (s.growCacheInBackground full).tasks } := by
  unfold growCacheInBackground
  split_ifs <;> rfl

theorem growCacheInBackground_tasks (hs : ∀ task ∈ s.tasks, task.isSome = true) (full : Bool) :
    (∀ task ∈ (s.growCacheInBackground full).tasks, task.isSome = true) ∧ (full = false →
      (s.growCacheInBackground full).tasks = [] → dlHarqAllocBatch ≤ s.bufferCache.length ∨ s.poolElemIndex = 0) := by
  unfold growCacheInBackground
  split_ifs with hdepleted hbatch hfull
  · exact ⟨hs, fun _ _ => .inr (by simpa [isPoolDepleted] using hdepleted)⟩
  · exact ⟨hs, fun _ _ => .inl hbatch⟩
  · exact ⟨hs, fun hroom => absurd (hfull.symm.trans hroom) Bool.true_eq_false.mp⟩
  · refine ⟨fun task htask => ?_, fun _ hnil =>
      absurd hnil (List.append_ne_nil_of_right_ne_nil _ (List.cons_ne_nil _ _))⟩
    rcases List.mem_append.mp htask with htask | htask
    · exact hs task htask
    · rw [List.mem_singleton.mp htask]
      rfl

theorem Inv.allocate_places (h : Inv steady s) {ue n : Nat} {l : List Nat} {done : Bool} (hue : ue < maxNofDuUes)
    (hnone : s.cellBuffers ue = []) (hgrow : growUeHarqs n s [] = (t, l, done)) :
    (t.setUeHarqs ue l).places.Perm (List.range dlHarqPoolSize) ∧
      ∀ b < t.poolElemIndex, t.refCnt b = 0 := by
  obtain ⟨hframe, hperm, hindex⟩ := growUeHarqs_frame hgrow
  obtain ⟨rest, hrest⟩ := places_setUeHarqs (s := s) hue
  have hbefore := hrest s (s.cellBuffers ue) rfl
  rw [setUeHarqs_self, hnone] at hbefore
  refine ⟨?_, fun b hb => ?_⟩
  · refine (hrest t l (by rw [hframe])).trans ?_
    exact ((hperm.append_right rest).trans hbefore.symm).trans h.places
  · rw [hframe]
    exact h.untouched b (hb.trans_le hindex)

theorem Inv.allocate (h : Inv steady s) {ue n : Nat} {full : Bool} (hsteady : steady → s.Steady (.allocate ue n full))
    (ht : s.allocateUeBuffers ue n full = .ok t) : Inv steady t := by
  unfold allocateUeBuffers at ht
  split_ifs at ht with hvalid hempty
  · cases ht
    exact h
  have hue : ue < maxNofDuUes := by
    by_contra hge
    exact hvalid (.inl (not_lt.mp hge))
  obtain ⟨u, l, done, hgrow⟩ : ∃ u l done, growUeHarqs n s [] = (u, l, done) := ⟨_, _, _, rfl⟩
  obtain ⟨hplaces, huntouched⟩ := h.allocate_places hue (not_not.mp hempty) hgrow
  have hptr : ∀ task ∈ (u.setUeHarqs ue l).tasks, task.isSome = true := by
    rw [show (u.setUeHarqs ue l).tasks = s.tasks by rw [setUeHarqs, (growUeHarqs_frame hgrow).1]]
    exact h.pointers
  rw [hgrow] at ht
  cases done with
  | true =>
    cases ht
    obtain ⟨hptr', hgrown⟩ := growCacheInBackground_tasks hptr full
    rw [growCacheInBackground_frame]
    exact ⟨hplaces, huntouched, hptr', fun hs => hgrown (hsteady hs).2.2⟩
  | false =>
    cases ht
    refine ⟨hplaces, huntouched, hptr, fun hs _ => .inr ?_⟩
    rcases growUeHarqs_done hgrow (hsteady hs).2.1 with ⟨hdone, -⟩ | ⟨-, hp, -⟩
    · cases hdone
    · exact hp

theorem Inv.runTask (h : Inv steady s) {full : Bool} (hsteady : steady → s.Steady (.runTask full))
    (ht : s.runTask full = .ok t) :
    Inv steady t := by
  unfold HarqBufferPool.runTask at ht
  cases htasks : s.tasks with
  | nil =>
    rw [htasks] at ht
    cases ht
  | cons task tasks =>
    rw [htasks] at ht
    cases ht
    have hsome : task.isSome = true := h.pointers task (htasks ▸ List.mem_cons_self)
    rw [growthTask, if_pos hsome]
    refine ⟨h.places, h.untouched, fun c hc => h.pointers c (htasks ▸ List.mem_cons_of_mem _ hc), ?_⟩
    rintro hs rfl
    exact hsteady hs (by rw [htasks]; rfl)

theorem Inv.step (h : Inv steady s) {e : HarqPoolEvent} (hsteady : steady → s.Steady e) (ht : s.step e = .ok t) :
    Inv steady t := by
  cases e with
  | allocate ue n full => exact h.allocate hsteady ht
  | deallocate ue =>
    simp only [HarqBufferPool.step, deallocateUeBuffers] at ht
    split_ifs at ht with hue
    cases ht
    exact h.moveToCache (not_le.mp hue)
  | clear =>
    rw [HarqBufferPool.step] at ht
    rw [← Except.ok.inj ht]
    exact h.clear
  | acquire ue hId =>
    simp only [HarqBufferPool.step, HarqBufferPool.acquire] at ht
    split_ifs at ht with hue
    cases hb : (s.cellBuffers ue)[hId]? with
    | none =>
      rw [hb] at ht
      cases ht
    | some b =>
      simp only [hb] at ht
      split_ifs at ht
      · cases ht
        exact h
      · cases ht
        exact h.updateRefCnt (h.touched (not_le.mp hue) (List.mem_of_getElem? hb))
  | copy b => exact h.changeRefCnt (f := (· + 1)) ht
  | release b => exact h.changeRefCnt (f := (· - 1)) ht
  | runTask full => exact h.runTask hsteady ht

theorem fillCache_places {n : Nat} {done : Bool} (h : fillCache n s = (t, done)) :
    t = { s with bufferCache := t.bufferCache, poolElemIndex := t.poolElemIndex } ∧ t.spare.Perm s.spare ∧
      (t.poolElemIndex = 0 ∨ t.bufferCache.length = s.bufferCache.length + n) := by
  induction n generalizing s with
  | zero =>
    cases h
    exact ⟨rfl, .refl _, .inr rfl⟩
  | succ n ih =>
    rw [fillCache] at h
    cases hb : s.allocateFromPool with
    | none =>
      rw [hb] at h
      cases h
      exact ⟨rfl, .refl _, .inl (allocateFromPool_none hb)⟩
    | some p =>
      obtain ⟨b, u⟩ := p
      obtain ⟨hp, rfl⟩ := allocateFromPool_some hb
      rw [hb] at h
      obtain ⟨hframe, hperm, hlen⟩ := ih h
      refine ⟨hframe, hperm.trans ?_, hlen.imp_right fun hl => ?_⟩
      · rw [spare, spare, hp, List.range_succ, List.append_assoc]
        exact (List.perm_append_singleton b s.bufferCache).append_left _
      · rw [hl]
        change (s.bufferCache ++ [b]).length + n = _
        rw [List.length_append, List.length_singleton, Nat.add_assoc, Nat.add_comm 1]

theorem inv_new : Inv steady new := by
  obtain ⟨t, done, hfill⟩ : ∃ t done, fillCache dlHarqAllocBatch
      { cellBuffers := fun _ => [], bufferCache := [], poolElemIndex := dlHarqPoolSize, refCnt := fun _ => 0
        poolGrowthCancelled := 0, cancelled := fun _ => false, tasks := [] } = (t, done) := ⟨_, _, rfl⟩
  obtain ⟨hframe, hperm, hlen⟩ := fillCache_places hfill
  rw [new, hfill]
  have hnone : (List.range maxNofDuUes).flatMap t.cellBuffers = [] := by
    rw [hframe]
    exact List.flatMap_eq_nil_iff.mpr fun _ _ => rfl
  refine ⟨?_, fun b _ => by rw [hframe], fun task htask => ?_, fun _ _ => ?_⟩
  · rw [places, hnone, List.append_nil]
    rw [spare, spare, List.append_nil] at hperm
    exact hperm
  · rw [hframe] at htask
    cases htask
  · rcases hlen with hzero | hl
    · exact .inr hzero
    · exact .inl (hl.symm ▸ Nat.le_add_left ..)

/-- After every run each element is in one place, and once. After a run of steady steps a UE gets the buffers
it asks for, and none in use, if so many are left; and the cache is full once no task is left. -/
theorem harqBuffers_run {es : List HarqPoolEvent} (hrun : Machine.run step new es = .ok s) :
    s.places.Perm (List.range dlHarqPoolSize) ∧ (Machine.Admits step Steady new es →
      (∀ ue nofHarqs full, ue < maxNofDuUes → nofHarqs ≤ maxNofHarqs → s.Steady (.allocate ue nofHarqs full) →
        nofHarqs ≤ s.unreferenced + s.poolElemIndex →
        ∃ t, s.step (.allocate ue nofHarqs full) = .ok t ∧ (t.cellBuffers ue).length = nofHarqs ∧
          ∀ b ∈ t.cellBuffers ue, t.refCnt b = 0) ∧
      (s.tasks = [] → s.poolElemIndex ≠ 0 → dlHarqAllocBatch ≤ s.bufferCache.length)) := by
  have hplaces : Inv False s := Machine.run_invariant (Inv False) (fun _ _ _ hi _ ht => hi.step False.elim ht) inv_new
    (Machine.admits_of_forall (fun _ _ => trivial) _ _) hrun
  refine ⟨hplaces.places, fun hsteady => ?_⟩
  have hinv : Inv True s :=
    Machine.run_invariant (Inv True) (fun _ _ _ hi hs ht => hi.step (fun _ => hs) ht) inv_new hsteady hrun
  refine ⟨fun ue n full hue hn hallowed hleft => ?_, fun htasks hpool => ?_⟩
  · obtain ⟨hnone, hcond, -⟩ := hallowed
    obtain ⟨u, l, done, hgrow⟩ : ∃ u l done, growUeHarqs n s [] = (u, l, done) := ⟨_, _, _, rfl⟩
    rcases growUeHarqs_done hgrow hcond with ⟨rfl, hlen⟩ | ⟨-, -, hshort⟩
    · have hstep : s.step (.allocate ue n full) = .ok ((u.setUeHarqs ue l).growCacheInBackground full) := by
        simp only [step, allocateUeBuffers, hgrow]
        rw [if_neg (by omega), if_neg (not_not.mpr hnone)]
      have hcells : ((u.setUeHarqs ue l).growCacheInBackground full).cellBuffers ue = l := by
        rw [growCacheInBackground_frame]
        exact Function.update_self ..
      have href : ((u.setUeHarqs ue l).growCacheInBackground full).refCnt = s.refCnt := by
        rw [growCacheInBackground_frame]
        change u.refCnt = s.refCnt
        rw [(growUeHarqs_frame hgrow).1]
      refine ⟨_, hstep, ?_, ?_⟩
      · rw [hcells, hlen, List.length_nil, Nat.zero_add]
      · rw [hcells, href]
        exact growUeHarqs_ref hgrow hinv.untouched (by simp)
    · omega
  · exact (hinv.grown trivial htasks).resolve_right hpool

def comeAndGo : List HarqPoolEvent := [.allocate 0 2 false, .acquire 0 1, .deallocate 0, .runTask false]

theorem harqBuffers_run_comeAndGo :
    ∃ s t, Machine.run step new comeAndGo = .ok s ∧ s.unreferenced = 63 ∧ s.tasks = [] ∧
      dlHarqAllocBatch ≤ s.bufferCache.length ∧ s.step (.allocate 1 32 false) = .ok t ∧
      (t.cellBuffers 1).length = 32 := by
  obtain ⟨s, hs⟩ := Machine.exists_of_isOk (r := Machine.run step new comeAndGo) (by decide +kernel)
  have hend : (Machine.run step new comeAndGo).map (fun s => (s.unreferenced, s.tasks, s.cellBuffers 1)) =
      .ok (63, [], []) := by
    decide +kernel
  have hpool : (Machine.run step new comeAndGo).map (fun s => decide (s.poolElemIndex ≠ 0)) = .ok true := by
    decide +kernel
  rw [hs] at hend hpool
  obtain ⟨hunref, htasks, hcells⟩ := (Prod.mk.inj (Except.ok.inj hend)).imp_right Prod.mk.inj
  obtain ⟨-, hsteady⟩ := harqBuffers_run hs
  obtain ⟨hgives, hgrown⟩ := hsteady (by decide +kernel)
  obtain ⟨t, ht, hlen, -⟩ := hgives 1 32 false (by decide) (by decide)
    ⟨hcells, .inl (hunref.symm ▸ by decide), rfl⟩ (by rw [show s.unreferenced = 63 from hunref]; omega)
  exact ⟨s, t, hs, hunref, htasks, hgrown htasks (of_decide_eq_true (Except.ok.inj hpool)), ht, hlen⟩

/-- A growth task leaves the cache as it is; and a UE gets 31 of 32 buffers, since one in the cache is in
use, though the pool has others. -/
theorem harqBuffers_run_short :
    (Machine.run step new [.allocate 0 1 false, .runTask false]).map
        (fun s => (s.tasks, s.poolElemIndex, s.bufferCache.length)) = .ok ([], 262080, 63) ∧
      (Machine.run step new [.allocate 0 32 false, .allocate 1 32 false, .acquire 0 0, .deallocate 0]).map
        (fun s => (s.unreferenced, s.poolElemIndex,
          (s.step (.allocate 2 32 false)).map fun t => (t.cellBuffers 2).length)) =
        .ok (31, 262080, .ok 31) := by
  constructor
  · decide +kernel
  · decide +kernel

end HarqBufferPool

end Ocudu.Mac
