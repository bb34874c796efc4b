import Ocudu.Basic.StableIdMap

/-! Rows of a table that are found through a map from keys, where a row may own an entry of a
second table. -/

namespace Ocudu

structure OwnerRow (R : Type*) where
  owned : Option Nat
  data : R

structure KeyedRows (K R Q : Type*) where
  rowIds : K → Option Nat
  rows : StableIdMap (OwnerRow R)
  entries : StableIdMap Q

namespace KeyedRows

variable {K R Q : Type*}

def empty : KeyedRows K R Q := ⟨fun _ => none, .empty, .empty⟩

def ownedId (t : KeyedRows K R Q) (rid : Nat) : Option Nat := (t.rows.find? rid).bind (·.owned)

def entryOf (t : KeyedRows K R Q) (k : K) : Option Q :=
  ((t.rowIds k).bind t.ownedId).bind t.entries.find?

def addmod [DecidableEq K] (t : KeyedRows K R Q) (k : K) (r : R) : KeyedRows K R Q :=
  match t.rowIds k with
  | none => { t with
    rowIds := Function.update t.rowIds k (some t.rows.nextId)
    rows := t.rows.insert ⟨none, r⟩ }
  | some rid => { t with rows := t.rows.modify rid fun row => { row with data := r } }

def own (t : KeyedRows K R Q) (k : K) (q : Q) (f : Q → Q) : KeyedRows K R Q :=
  match t.rowIds k with
  | none => t
  | some rid =>
    match t.ownedId rid with
    | none => { t with
      entries := t.entries.insert q
      rows := t.rows.modify rid fun row => { row with owned := some t.entries.nextId } }
    | some id => { t with entries := t.entries.modify id f }

def disown (t : KeyedRows K R Q) (k : K) : KeyedRows K R Q :=
  match t.rowIds k with
  | none => t
  | some rid =>
    match t.ownedId rid with
    | none => t
    | some id => { t with
      entries := t.entries.erase id
      rows := t.rows.modify rid fun row => { row with owned := none } }

def remove [DecidableEq K] (t : KeyedRows K R Q) (k : K) : KeyedRows K R Q :=
  match t.rowIds k with
  | none => t
  | some rid =>
    { rowIds := Function.update t.rowIds k none
      rows := t.rows.erase rid
      entries := (t.ownedId rid).elim t.entries t.entries.erase }

structure Linked (t : KeyedRows K R Q) : Prop where
  rowIds_inj : ∀ k k' rid, t.rowIds k = some rid → t.rowIds k' = some rid → k = k'
  row_live : ∀ k rid, t.rowIds k = some rid → (t.rows.find? rid).isSome = true
  entry_live : ∀ rid id, t.ownedId rid = some id → (t.entries.find? id).isSome = true
  owned_inj : ∀ rid rid' id, t.ownedId rid = some id → t.ownedId rid' = some id → rid = rid'

variable {t : KeyedRows K R Q} {k : K}

theorem linked_empty : Linked (empty : KeyedRows K R Q) where
  rowIds_inj := by intro _ _ _ h; cases h
  row_live := by intro _ _ h; cases h
  entry_live := by intro _ _ h; cases h
  owned_inj := by intro _ _ _ h; cases h

theorem entryOf_eq_none (h : t.rowIds k = none) : t.entryOf k = none := by
  rw [entryOf, h]
  rfl

theorem entryOf_eq {rid : Nat} (h : t.rowIds k = some rid) :
    t.entryOf k = (t.ownedId rid).bind t.entries.find? := by
  rw [entryOf, h]
  rfl

@[simp] theorem ownedId_nextId (t : KeyedRows K R Q) : t.ownedId t.rows.nextId = none := by
  rw [ownedId, t.rows.find?_nextId]
  rfl

theorem Linked.ne_nextId (h : Linked t) {rid : Nat} (hk : t.rowIds k = some rid) :
    rid ≠ t.rows.nextId := by
  rintro rfl
  have hlive := h.row_live k _ hk
  rw [t.rows.find?_nextId] at hlive
  cases hlive

theorem Linked.owned_ne (h : Linked t) {rid id : Nat} (hid : t.ownedId rid = some id) :
    id ≠ t.entries.nextId := by
  rintro rfl
  have hlive := h.entry_live rid _ hid
  rw [t.entries.find?_nextId] at hlive
  cases hlive

theorem Linked.isSome_entryOf (h : Linked t) (k : K) :
    (t.entryOf k).isSome = ((t.rowIds k).bind t.ownedId).isSome := by
  unfold entryOf
  cases hid : (t.rowIds k).bind t.ownedId with
  | none => rfl
  | some id =>
    obtain ⟨rid, -, hrid⟩ := Option.bind_eq_some_iff.mp hid
    exact h.entry_live rid id hrid

/-! `addmod` -/

section

variable [DecidableEq K]

theorem rowIds_addmod (t : KeyedRows K R Q) (k : K) (r : R) (k' : K) :
    (t.addmod k r).rowIds k' =
      if k' = k then some ((t.rowIds k).getD t.rows.nextId) else t.rowIds k' := by
  unfold addmod
  cases hk : t.rowIds k with
  | none => simp [Function.update_apply]
  | some rid =>
    dsimp only
    split
    · rename_i heq
      rw [heq, hk]
      rfl
    · rfl

@[simp] theorem entries_addmod (t : KeyedRows K R Q) (k : K) (r : R) :
    (t.addmod k r).entries = t.entries := by
  unfold addmod
  cases t.rowIds k <;> rfl

@[simp] theorem ownedId_addmod (t : KeyedRows K R Q) (k : K) (r : R) (rid : Nat) :
    (t.addmod k r).ownedId rid = t.ownedId rid := by
  unfold ownedId addmod
  cases t.rowIds k with
  | none =>
    dsimp only
    rw [StableIdMap.find?_insert]
    split
    · rename_i heq
      rw [heq, t.rows.find?_nextId]
      rfl
    · rfl
  | some rid' =>
    dsimp only
    rw [StableIdMap.find?_modify]
    split
    · rename_i heq
      rw [heq]
      cases t.rows.find? rid' <;> rfl
    · rfl

@[simp] theorem entryOf_addmod (t : KeyedRows K R Q) (k : K) (r : R) (k' : K) :
    (t.addmod k r).entryOf k' = t.entryOf k' := by
  have howned : (t.addmod k r).ownedId = t.ownedId := funext (t.ownedId_addmod k r)
  unfold entryOf
  rw [entries_addmod, howned, rowIds_addmod]
  split
  · rename_i heq
    rw [heq]
    cases t.rowIds k with
    | none => rw [Option.getD_none, Option.bind_some, ownedId_nextId]; rfl
    | some rid => rfl
  · rfl

theorem Linked.addmod (h : Linked t) (k : K) (r : R) : Linked (t.addmod k r) := by
  have howned := t.ownedId_addmod k r
  constructor
  case entry_live =>
    intro rid id hid
    rw [entries_addmod]
    exact h.entry_live rid id (howned rid ▸ hid)
  case owned_inj =>
    exact fun rid rid' id hid hid' => h.owned_inj rid rid' id (howned rid ▸ hid) (howned rid' ▸ hid')
  case rowIds_inj =>
    have hnew : ∀ a rid, a ≠ k → t.rowIds a = some rid →
        rid ≠ (t.rowIds k).getD t.rows.nextId := by
      rintro a rid hne ha rfl
      cases hk : t.rowIds k with
      | none =>
        rw [hk] at ha
        exact h.ne_nextId ha rfl
      | some rid' =>
        rw [hk] at ha
        exact hne (h.rowIds_inj a k _ ha hk)
    intro a b rid ha hb
    rw [rowIds_addmod] at ha hb
    split at ha <;> split at hb
    · rename_i hka hkb
      exact hka.trans hkb.symm
    · rename_i hkb
      cases ha
      exact absurd rfl (hnew b _ hkb hb)
    · rename_i hka _
      cases hb
      exact absurd rfl (hnew a _ hka ha)
    · exact h.rowIds_inj a b rid ha hb
  case row_live =>
    intro a rid ha
    rw [rowIds_addmod] at ha
    unfold KeyedRows.addmod
    cases hk : t.rowIds k with
    | none =>
      dsimp only
      rw [StableIdMap.find?_insert]
      split
      · rfl
      · rename_i hne
        split at ha
        · rw [hk] at ha
          cases ha
          exact absurd rfl hne
        · exact h.row_live a rid ha
    | some rid' =>
      have hlive : (t.rows.find? rid).isSome = true := by
        split at ha
        · rw [hk] at ha
          cases ha
          exact h.row_live k rid' hk
        · exact h.row_live a rid ha
      dsimp only
      rw [StableIdMap.find?_modify]
      split
      · rename_i heq
        rw [← heq, Option.isSome_map]
        exact hlive
      · exact hlive

end

/-! `own` and `disown` -/

theorem Linked.ownedId_modify (h : Linked t) {rid : Nat} (hk : t.rowIds k = some rid)
    (o : Option Nat) (entries : StableIdMap Q) (rid' : Nat) :
    ownedId { t with rows := t.rows.modify rid fun row => { row with owned := o }, entries } rid' =
      if rid' = rid then o else t.ownedId rid' := by
  obtain ⟨row, hrow⟩ := Option.isSome_iff_exists.mp (h.row_live k rid hk)
  unfold ownedId
  dsimp only
  rw [StableIdMap.find?_modify]
  split
  · rw [hrow]
    rfl
  · rfl

/-- The row of `k` may own another entry that is there, if no other row owns it and the
entries of the others stay. -/
theorem Linked.rewire (h : Linked t) {rid : Nat} (hk : t.rowIds k = some rid) {o : Option Nat}
    {entries : StableIdMap Q} (hlive : ∀ id ∈ o, (entries.find? id).isSome = true)
    (hkeep : ∀ rid' id, rid' ≠ rid → t.ownedId rid' = some id →
      (entries.find? id).isSome = true ∧ o ≠ some id) :
    Linked { t with rows := t.rows.modify rid fun row => { row with owned := o }, entries } := by
  have howned := h.ownedId_modify hk o entries
  constructor
  case rowIds_inj => exact h.rowIds_inj
  case row_live =>
    intro k' rid' hk'
    have hrow := h.row_live k' rid' hk'
    dsimp only
    rw [StableIdMap.find?_modify]
    split
    · rename_i heq
      rw [← heq, Option.isSome_map]
      exact hrow
    · exact hrow
  case entry_live =>
    intro rid' id hid
    rw [howned] at hid
    split at hid
    · exact hlive id hid
    · rename_i hne
      exact (hkeep rid' id hne hid).1
  case owned_inj =>
    intro a b id ha hb
    rw [howned] at ha hb
    split at ha <;> split at hb
    · rename_i hra hrb
      exact hra.trans hrb.symm
    · rename_i hrb
      exact absurd ha (hkeep b id hrb hb).2
    · rename_i hra _
      exact absurd hb (hkeep a id hra ha).2
    · exact h.owned_inj a b id ha hb

theorem Linked.isSome_rewire (h : Linked t) {rid : Nat} (hk : t.rowIds k = some rid)
    {o : Option Nat} {entries : StableIdMap Q}
    (hlinked : Linked { t with rows := t.rows.modify rid fun row => { row with owned := o }, entries })
    (k' : K) [Decidable (k' = k)] :
    (entryOf { t with rows := t.rows.modify rid fun row => { row with owned := o }, entries } k').isSome =
      if k' = k then o.isSome else (t.entryOf k').isSome := by
  have howned := h.ownedId_modify hk o entries
  rw [hlinked.isSome_entryOf, h.isSome_entryOf]
  cases hk' : t.rowIds k' with
  | none =>
    rw [if_neg]
    · rfl
    · rintro rfl
      rw [hk] at hk'
      cases hk'
  | some rid' =>
    have hsame : rid' = rid ↔ k' = k :=
      ⟨fun heq => h.rowIds_inj k' k rid (heq ▸ hk') hk, fun heq => by
        subst heq
        exact Option.some.inj (hk'.symm.trans hk)⟩
    simp only [Option.bind_some, howned, hsame]
    split <;> rfl

theorem rowIds_own (t : KeyedRows K R Q) (k : K) (q : Q) (f : Q → Q) :
    (t.own k q f).rowIds = t.rowIds := by
  unfold own
  cases t.rowIds k with
  | none => rfl
  | some rid =>
    dsimp only
    cases t.ownedId rid <;> rfl

@[simp] theorem rowIds_disown (t : KeyedRows K R Q) (k : K) : (t.disown k).rowIds = t.rowIds := by
  unfold disown
  cases t.rowIds k with
  | none => rfl
  | some rid =>
    dsimp only
    cases t.ownedId rid <;> rfl

theorem Linked.own (h : Linked t) {rid : Nat} (hk : t.rowIds k = some rid) (q : Q) (f : Q → Q) :
    Linked (t.own k q f) ∧ ∀ (k' : K) [Decidable (k' = k)],
      ((t.own k q f).entryOf k').isSome = if k' = k then true else (t.entryOf k').isSome := by
  unfold KeyedRows.own
  simp only [hk]
  cases hid : t.ownedId rid with
  | none =>
    have hlinked : Linked { t with
        entries := t.entries.insert q
        rows := t.rows.modify rid fun row => { row with owned := some t.entries.nextId } } := by
      refine h.rewire hk ?_ ?_
      · rintro id ⟨⟩
        rw [StableIdMap.find?_insert, if_pos rfl]
        rfl
      · intro rid' id _ hown
        have hne := h.owned_ne hown
        rw [StableIdMap.find?_insert, if_neg hne]
        exact ⟨h.entry_live rid' id hown, fun heq => hne (Option.some.inj heq).symm⟩
    exact ⟨hlinked, fun k' _ => h.isSome_rewire hk hlinked k'⟩
  | some id =>
    have hfind : ∀ i, ((t.entries.modify id f).find? i).isSome = (t.entries.find? i).isSome := by
      intro i
      rw [StableIdMap.find?_modify]
      split
      · rename_i heq
        rw [heq, Option.isSome_map]
      · rfl
    have hlinked : Linked { t with entries := t.entries.modify id f } :=
      ⟨h.rowIds_inj, h.row_live, fun rid' i hi => (hfind i).trans (h.entry_live rid' i hi),
        h.owned_inj⟩
    refine ⟨hlinked, fun k' _ => ?_⟩
    rw [hlinked.isSome_entryOf, h.isSome_entryOf]
    split
    · rename_i heq
      rw [heq]
      simp only [hk, Option.bind_some]
      exact (congrArg Option.isSome hid).trans rfl
    · rfl

theorem Linked.disown (h : Linked t) (k : K) :
    Linked (t.disown k) ∧ ∀ (k' : K) [Decidable (k' = k)],
      ((t.disown k).entryOf k').isSome = if k' = k then false else (t.entryOf k').isSome := by
  have hkeep : (t.entryOf k).isSome = false → ∀ (k' : K) [Decidable (k' = k)],
      (t.entryOf k').isSome = if k' = k then false else (t.entryOf k').isSome := by
    intro hnone k' _
    split
    · rename_i heq
      rw [heq, hnone]
    · rfl
  unfold KeyedRows.disown
  cases hk : t.rowIds k with
  | none => exact ⟨h, hkeep (by rw [entryOf_eq_none hk]; rfl)⟩
  | some rid =>
    dsimp only
    cases hid : t.ownedId rid with
    | none => exact ⟨h, hkeep (by rw [entryOf_eq hk, hid]; rfl)⟩
    | some id =>
      have hlinked : Linked { t with
          entries := t.entries.erase id
          rows := t.rows.modify rid fun row => { row with owned := none } } := by
        refine h.rewire hk (fun _ hi => by cases hi) ?_
        intro rid' i hne hown
        have hdiff : i ≠ id := by
          rintro rfl
          exact hne (h.owned_inj rid' rid i hown hid)
        rw [StableIdMap.find?_erase, if_neg hdiff]
        exact ⟨h.entry_live rid' i hown, nofun⟩
      exact ⟨hlinked, fun k' _ => h.isSome_rewire hk hlinked k'⟩

/-! `remove` -/

section

variable [DecidableEq K]

@[simp] theorem rowIds_remove (t : KeyedRows K R Q) (k k' : K) :
    (t.remove k).rowIds k' = if k' = k then none else t.rowIds k' := by
  unfold remove
  cases hk : t.rowIds k with
  | none =>
    dsimp only
    split
    · rename_i heq
      rw [heq, hk]
    · rfl
  | some rid => simp [Function.update_apply]

theorem Linked.remove (h : Linked t) (k : K) :
    Linked (t.remove k) ∧ ∀ k', ((t.remove k).entryOf k').isSome =
      if k' = k then false else (t.entryOf k').isSome := by
  cases hk : t.rowIds k with
  | none =>
    have hsame : t.remove k = t := by
      unfold KeyedRows.remove
      rw [hk]
    rw [hsame]
    refine ⟨h, fun k' => ?_⟩
    split
    · rename_i heq
      rw [heq, entryOf_eq_none hk]
      rfl
    · rfl
  | some rid =>
    have hids := t.rowIds_remove k
    have hrow : ∀ k' rid', k' ≠ k → t.rowIds k' = some rid' → rid' ≠ rid := by
      rintro k' rid' hne hk' rfl
      exact hne (h.rowIds_inj k' k rid' hk' hk)
    have hrem : t.remove k = {
        rowIds := Function.update t.rowIds k none
        rows := t.rows.erase rid
        entries := (t.ownedId rid).elim t.entries t.entries.erase } := by
      unfold KeyedRows.remove
      rw [hk]
    have howned : ∀ rid', (t.remove k).ownedId rid' = if rid' = rid then none else t.ownedId rid' := by
      intro rid'
      unfold ownedId
      rw [hrem]
      dsimp only
      rw [StableIdMap.find?_erase]
      split <;> rfl
    have hentry : ∀ rid' id, rid' ≠ rid → t.ownedId rid' = some id →
        ((t.remove k).entries.find? id).isSome = true := by
      intro rid' id hne hown
      rw [hrem]
      dsimp only
      cases hid : t.ownedId rid with
      | none => exact h.entry_live rid' id hown
      | some id' =>
        have hdiff : id ≠ id' := by
          rintro rfl
          exact hne (h.owned_inj rid' rid id hown hid)
        rw [Option.elim_some, StableIdMap.find?_erase, if_neg hdiff]
        exact h.entry_live rid' id hown
    have hlinked : Linked (t.remove k) := by
      constructor
      case rowIds_inj =>
        intro a b rid' ha hb
        rw [hids] at ha hb
        split at ha
        · cases ha
        · split at hb
          · cases hb
          · exact h.rowIds_inj a b rid' ha hb
      case row_live =>
        intro a rid' ha
        rw [hids] at ha
        split at ha
        · cases ha
        · rename_i hne
          rw [hrem]
          dsimp only
          rw [StableIdMap.find?_erase, if_neg (hrow a rid' hne ha)]
          exact h.row_live a rid' ha
      case entry_live =>
        intro rid' id hid
        rw [howned] at hid
        split at hid
        · cases hid
        · rename_i hne
          exact hentry rid' id hne hid
      case owned_inj =>
        intro a b id ha hb
        rw [howned] at ha hb
        split at ha
        · cases ha
        · split at hb
          · cases hb
          · exact h.owned_inj a b id ha hb
    refine ⟨hlinked, fun k' => ?_⟩
    rw [hlinked.isSome_entryOf, h.isSome_entryOf, hids]
    split
    · rfl
    · rename_i hne
      cases hk' : t.rowIds k' with
      | none => rfl
      | some rid' =>
        rw [Option.bind_some, Option.bind_some, howned, if_neg (hrow k' rid' hne hk')]

/-! Rows that are set one after the other -/

structure Sets (t t' : KeyedRows K R Q) (k : K) (b : Bool) : Prop where
  linked : Linked t'
  rowIds : ∀ k', k' ≠ k → t'.rowIds k' = t.rowIds k'
  row : (t'.rowIds k).isSome = true
  kept : ∀ rid, t.rowIds k = some rid → t'.rowIds k = some rid
  owns : ∀ k', (t'.entryOf k').isSome = if k' = k then b else (t.entryOf k').isSome

theorem addmod_rowIds (t : KeyedRows K R Q) (k : K) (r : R) :
    (∀ k', k' ≠ k → (t.addmod k r).rowIds k' = t.rowIds k') ∧
      ((t.addmod k r).rowIds k).isSome = true ∧
        ∀ rid, t.rowIds k = some rid → (t.addmod k r).rowIds k = some rid := by
  refine ⟨fun k' hne => ?_, ?_, fun rid hk => ?_⟩
  · rw [rowIds_addmod, if_neg hne]
  · rw [rowIds_addmod, if_pos rfl]
    rfl
  · rw [rowIds_addmod, if_pos rfl, hk]
    rfl

theorem Linked.sets_own (h : Linked t) (k : K) (r : R) (q : Q) (f : Q → Q) :
    Sets t ((t.addmod k r).own k q f) k true := by
  obtain ⟨hrows, hrow, hkept⟩ := addmod_rowIds t k r
  obtain ⟨rid, hk⟩ := Option.isSome_iff_exists.mp hrow
  obtain ⟨hlinked, howns⟩ := (h.addmod k r).own hk q f
  constructor
  case linked => exact hlinked
  case rowIds => rw [rowIds_own]; exact hrows
  case row => rw [rowIds_own]; exact hrow
  case kept => rw [rowIds_own]; exact hkept
  case owns =>
    intro k'
    rw [howns k', entryOf_addmod]

theorem Linked.sets_disown (h : Linked t) (k : K) (r : R) :
    Sets t ((t.addmod k r).disown k) k false := by
  obtain ⟨hrows, hrow, hkept⟩ := addmod_rowIds t k r
  obtain ⟨hlinked, howns⟩ := (h.addmod k r).disown k
  constructor
  case linked => exact hlinked
  case rowIds => rw [rowIds_disown]; exact hrows
  case row => rw [rowIds_disown]; exact hrow
  case kept => rw [rowIds_disown]; exact hkept
  case owns =>
    intro k'
    rw [howns k', entryOf_addmod]

/-- What the last pair of `l` with the key `k` says, or `b` if there is none. -/
def lastFlag (k : K) (l : List (K × Bool)) (b : Bool) : Bool :=
  l.foldl (fun b p => if p.1 = k then p.2 else b) b

theorem lastFlag_of_not_mem {l : List (K × Bool)} (h : k ∉ l.map Prod.fst) (b : Bool) :
    lastFlag k l b = b := by
  induction l generalizing b with
  | nil => rfl
  | cons p l ih =>
    rw [List.map_cons, List.mem_cons, not_or] at h
    rw [lastFlag, List.foldl_cons, if_neg (Ne.symm h.1)]
    exact ih h.2 b

theorem lastFlag_of_mem {l : List (K × Bool)} (h : k ∈ l.map Prod.fst) (b b' : Bool) :
    lastFlag k l b = lastFlag k l b' := by
  induction l generalizing b b' with
  | nil => cases h
  | cons p l ih =>
    rw [lastFlag, lastFlag, List.foldl_cons, List.foldl_cons]
    by_cases hp : p.1 = k
    · rw [if_pos hp, if_pos hp]
    · rw [if_neg hp, if_neg hp]
      rw [List.map_cons, List.mem_cons] at h
      exact ih (h.resolve_left (Ne.symm hp)) b b'

structure SetsAll (t t' : KeyedRows K R Q) (l : List (K × Bool)) : Prop where
  linked : Linked t'
  rowIds : ∀ k, k ∉ l.map Prod.fst → t'.rowIds k = t.rowIds k
  row : ∀ k ∈ l.map Prod.fst, (t'.rowIds k).isSome = true
  kept : ∀ k rid, t.rowIds k = some rid → t'.rowIds k = some rid
  owns : ∀ k, (t'.entryOf k).isSome = lastFlag k l (t.entryOf k).isSome

theorem Linked.setsAll_nil (h : Linked t) : SetsAll t t [] where
  linked := h
  rowIds := fun _ _ => rfl
  row := by intro k hk; cases hk
  kept := fun _ _ hk => hk
  owns := fun _ => rfl

theorem Sets.setsAll {t₁ t₂ : KeyedRows K R Q} {b : Bool} {l : List (K × Bool)}
    (h : Sets t t₁ k b) (h' : SetsAll t₁ t₂ l) : SetsAll t t₂ ((k, b) :: l) := by
  constructor
  case linked => exact h'.linked
  case rowIds =>
    intro k' hk'
    rw [List.map_cons, List.mem_cons, not_or] at hk'
    rw [h'.rowIds k' hk'.2, h.rowIds k' hk'.1]
  case row =>
    intro k' hk'
    rw [List.map_cons, List.mem_cons] at hk'
    rcases hk' with rfl | htail
    · obtain ⟨rid, hrid⟩ := Option.isSome_iff_exists.mp h.row
      rw [h'.kept _ rid hrid]
      rfl
    · exact h'.row k' htail
  case kept =>
    intro k' rid hk'
    refine h'.kept k' rid ?_
    by_cases hk : k' = k
    · subst hk
      exact h.kept rid hk'
    · rw [h.rowIds k' hk]
      exact hk'
  case owns =>
    intro k'
    rw [h'.owns k', h.owns k', lastFlag, lastFlag, List.foldl_cons]
    simp only [eq_comm]

end

/-- No row was taken away from `t`, and there are no more ids than before, or than `t'` has rows. -/
structure Grown (t t' : KeyedRows K R Q) : Prop where
  length : t.rows.objs.length ≤ t'.rows.objs.length
  size : t'.rows.size ≤ max t.rows.size t'.rows.objs.length

theorem Grown.refl (t : KeyedRows K R Q) : Grown t t := ⟨le_rfl, le_max_left _ _⟩

theorem Grown.trans {t₁ t₂ : KeyedRows K R Q} (h : Grown t t₁) (h' : Grown t₁ t₂) : Grown t t₂ where
  length := h.length.trans h'.length
  size := by
    have hlength := h'.length
    have hfirst := h.size
    have hsecond := h'.size
    omega

theorem grown_addmod [DecidableEq K] (t : KeyedRows K R Q) (k : K) (r : R) : Grown t (t.addmod k r) := by
  unfold addmod
  cases t.rowIds k with
  | none => exact ⟨Nat.le_succ _, t.rows.size_insert_le _⟩
  | some rid => exact ⟨(StableIdMap.length_modify ..).ge, le_max_left _ _⟩

theorem grown_own (t : KeyedRows K R Q) (k : K) (q : Q) (f : Q → Q) : Grown t (t.own k q f) := by
  unfold own
  cases t.rowIds k with
  | none => exact .refl t
  | some rid =>
    dsimp only
    cases t.ownedId rid with
    | none => exact ⟨(StableIdMap.length_modify ..).ge, le_max_left _ _⟩
    | some id => exact ⟨le_rfl, le_max_left _ _⟩

theorem grown_disown (t : KeyedRows K R Q) (k : K) : Grown t (t.disown k) := by
  unfold disown
  cases t.rowIds k with
  | none => exact .refl t
  | some rid =>
    dsimp only
    cases t.ownedId rid with
    | none => exact .refl t
    | some id => exact ⟨(StableIdMap.length_modify ..).ge, le_max_left _ _⟩

@[simp] theorem size_remove [DecidableEq K] (t : KeyedRows K R Q) (k : K) :
    (t.remove k).rows.size = t.rows.size := by
  unfold remove
  cases t.rowIds k <;> rfl

theorem Linked.lt_size (h : Linked t) {rid : Nat} (hk : t.rowIds k = some rid) : rid < t.rows.size :=
  StableIdMap.lt_size (h.row_live k rid hk)

/-- In `t'` the rows of the keys in `P` are gone. -/
structure Drops (t t' : KeyedRows K R Q) (P : K → Prop) [DecidablePred P] : Prop where
  linked : Linked t'
  rowIds : ∀ k, t'.rowIds k = if P k then none else t.rowIds k
  owns : ∀ k, (t'.entryOf k).isSome = if P k then false else (t.entryOf k).isSome

theorem Linked.drops [DecidableEq K] (h : Linked t) (k : K) : Drops t (t.remove k) (· = k) :=
  ⟨(h.remove k).1, t.rowIds_remove k, (h.remove k).2⟩

theorem Linked.drops_none (h : Linked t) {P : K → Prop} [DecidablePred P]
    (hnone : ∀ k, P k → t.rowIds k = none) : Drops t t P := by
  refine ⟨h, fun k => ?_, fun k => ?_⟩
  · split
    · rename_i hk
      exact hnone k hk
    · rfl
  · split
    · rename_i hk
      rw [entryOf_eq_none (hnone k hk)]
      rfl
    · rfl

theorem Drops.congr {t' : KeyedRows K R Q} {P P' : K → Prop} [DecidablePred P] [DecidablePred P']
    (h : Drops t t' P) (hiff : ∀ k, P k ↔ P' k) : Drops t t' P' := by
  refine ⟨h.linked, fun k => ?_, fun k => ?_⟩
  · rw [h.rowIds]
    exact if_congr (hiff k) rfl rfl
  · rw [h.owns]
    exact if_congr (hiff k) rfl rfl

theorem Drops.trans {t₁ t₂ : KeyedRows K R Q} {P P' P'' : K → Prop} [DecidablePred P]
    [DecidablePred P'] [DecidablePred P''] (h : Drops t t₁ P) (h' : Drops t₁ t₂ P')
    (hiff : ∀ k, P'' k ↔ P k ∨ P' k) : Drops t t₂ P'' := by
  refine ⟨h'.linked, fun k => ?_, fun k => ?_⟩
  · rw [h'.rowIds, h.rowIds]
    simp only [hiff]
    split_ifs with h1 h2 h3 h4 h5
    · rfl
    · exact absurd (.inr h1) h2
    · rfl
    · exact absurd (.inl h3) h4
    · exact absurd h5 (not_or.mpr ⟨h3, h1⟩)
    · rfl
  · rw [h'.owns, h.owns]
    simp only [hiff]
    split_ifs with h1 h2 h3 h4 h5
    · rfl
    · exact absurd (.inr h1) h2
    · rfl
    · exact absurd (.inl h3) h4
    · exact absurd h5 (not_or.mpr ⟨h3, h1⟩)
    · rfl

end KeyedRows

end Ocudu
