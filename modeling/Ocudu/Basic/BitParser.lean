import Ocudu.Basic.BitStream

/-! Parsers over a bit reader. A parser stops at a fault, rejects its input, or gives a value. -/

namespace Ocudu

open BitCodec BitReader

def BitParser (α : Type) := BitReader → Except BitFault (Option (α × BitReader))

namespace BitParser

variable {α β : Type}

def bind (x : BitParser α) (f : α → BitParser β) : BitParser β := fun r =>
  match x r with
  | .error e => .error e
  | .ok none => .ok none
  | .ok (some (a, r)) => f a r

instance : Monad BitParser where
  pure a := fun r => .ok (some (a, r))
  bind := bind

def require (p : Prop) [Decidable p] : BitParser Unit := fun r => .ok (if p then some ((), r) else none)

def read (tBits n : Nat) : BitParser Nat := fun r =>
  if n ≤ tBits then (unpackLoop n r 0 n).map fun res => if res.1 then some res.2 else none else .error .nofBits

def readUnchecked (tBits n : Nat) : BitParser Nat := fun r =>
  if n ≤ tBits then (unpackLoop n r 0 n).map fun res => some res.2 else .error .nofBits

def optional (present : Bool) (x : BitParser α) : BitParser (Option α) :=
  if present then x >>= fun a => pure (some a) else pure none

def times : Nat → BitParser α → BitParser (List α)
  | 0, _ => pure []
  | n + 1, x => do
    let a ← x
    let as ← times n x
    pure (a :: as)

theorem bind_ok {x : BitParser α} {f : α → BitParser β} {a : α} {r r' : BitReader} (h : x r = .ok (some (a, r'))) :
    (x >>= f) r = f a r' := by
  show BitParser.bind x f r = _
  rw [BitParser.bind, h]

theorem bind_fail {x : BitParser α} {f : α → BitParser β} {r : BitReader} (h : x r = .ok none) :
    (x >>= f) r = .ok none := by
  show BitParser.bind x f r = _
  rw [BitParser.bind, h]

theorem require_ok {p : Prop} [Decidable p] (h : p) (f : Unit → BitParser β) (r : BitReader) :
    (require p >>= f) r = f () r := by
  apply bind_ok
  rw [require, if_pos h]

theorem require_fail {p : Prop} [Decidable p] (h : ¬p) (f : Unit → BitParser β) (r : BitReader) :
    (require p >>= f) r = .ok none := by
  apply bind_fail
  rw [require, if_neg h]

theorem read_at {bytes : List UInt8} {pos : Nat} (hpos : pos ≤ 8 * bytes.length) {tBits n : Nat} (hn : n ≤ tBits) :
    read tBits n (at' bytes pos) = .ok (if pos + n ≤ 8 * bytes.length then
      some (ofBits ((rest bytes pos).take n), at' bytes (pos + n)) else none) := by
  have hlen : n ≤ (rest bytes pos).length ↔ pos + n ≤ 8 * bytes.length := by
    rw [length_rest]
    omega
  rw [read, if_pos hn, unpackLoop_at n bytes 0 hpos (Nat.le_refl n)]
  by_cases h : pos + n ≤ 8 * bytes.length
  · rw [if_pos (hlen.mpr h), if_pos h, Nat.zero_add]
    rfl
  · rw [if_neg (mt hlen.mp h), if_neg h]
    rfl

theorem readUnchecked_at {bytes : List UInt8} {pos : Nat} (hpos : pos ≤ 8 * bytes.length) {tBits n : Nat}
    (hn : n ≤ tBits) : readUnchecked tBits n (at' bytes pos) = .ok (some (if pos + n ≤ 8 * bytes.length then
      (ofBits ((rest bytes pos).take n), at' bytes (pos + n))
    else (ofBits (rest bytes pos) * 2 ^ (n - (rest bytes pos).length), at' bytes (8 * bytes.length)))) := by
  have hlen : n ≤ (rest bytes pos).length ↔ pos + n ≤ 8 * bytes.length := by
    rw [length_rest]
    omega
  rw [readUnchecked, if_pos hn, unpackLoop_at n bytes 0 hpos (Nat.le_refl n)]
  by_cases h : pos + n ≤ 8 * bytes.length
  · rw [if_pos (hlen.mpr h), if_pos h, Nat.zero_add]
    rfl
  · rw [if_neg (mt hlen.mp h), if_neg h, Nat.zero_add]
    rfl

/-! A field that is there is parsed -/

/-- The parser gives the value wherever the field comes next. -/
def Accepts (x : BitParser α) (field : List Bool) (a : α) : Prop :=
  ∀ bytes pos tail, pos ≤ 8 * bytes.length → rest bytes pos = field ++ tail →
    x (at' bytes pos) = .ok (some (a, at' bytes (pos + field.length)))

namespace Accepts

variable {x : BitParser α} {f : α → BitParser β} {field field' : List Bool} {a : α} {b : β}

theorem of_eq (h : field = field') (hx : Accepts x field a) : Accepts x field' a := h ▸ hx

theorem pure (a : α) : Accepts (Pure.pure a) [] a := fun _ _ _ _ _ => rfl

theorem bind (hx : Accepts x field a) (hf : Accepts (f a) field' b) : Accepts (x >>= f) (field ++ field') b := by
  intro bytes pos tail hpos hrest
  rw [List.append_assoc] at hrest
  have hlen := congrArg List.length hrest
  rw [length_rest, List.length_append, List.length_append] at hlen
  have hnext : rest bytes (pos + field.length) = field' ++ tail := by
    rw [← drop_rest, hrest, List.drop_left]
  show BitParser.bind x f (at' bytes pos) = _
  rw [BitParser.bind, hx bytes pos _ hpos hrest]
  dsimp only
  rw [hf bytes _ tail (by omega) hnext, List.length_append, Nat.add_assoc]

theorem require {p : Prop} [Decidable p] (h : p) : Accepts (BitParser.require p) [] () := by
  intro bytes pos tail _ _
  rw [BitParser.require, if_pos h]
  rfl

theorem read {tBits n : Nat} (hn : n ≤ tBits) {v : Nat} (hv : v < 2 ^ n) :
    Accepts (BitParser.read tBits n) (toBits n v) v := by
  intro bytes pos tail hpos hrest
  have hlen := congrArg List.length hrest
  rw [length_rest, List.length_append, length_toBits] at hlen
  rw [read_at hpos hn, if_pos (by omega), hrest, List.take_left' (length_toBits n v), ofBits_toBits,
    Nat.mod_eq_of_lt hv, length_toBits]

theorem readUnchecked {tBits n : Nat} (hn : n ≤ tBits) {v : Nat} (hv : v < 2 ^ n) :
    Accepts (BitParser.readUnchecked tBits n) (toBits n v) v := by
  intro bytes pos tail hpos hrest
  have hlen := congrArg List.length hrest
  rw [length_rest, List.length_append, length_toBits] at hlen
  rw [readUnchecked_at hpos hn, if_pos (by omega), hrest, List.take_left' (length_toBits n v), ofBits_toBits,
    Nat.mod_eq_of_lt hv, length_toBits]

theorem map (hx : Accepts x field a) (g : α → β) : Accepts (x >>= fun a => Pure.pure (g a)) field (g a) := by
  have h := hx.bind (f := fun a => Pure.pure (g a)) (pure (g a))
  rwa [List.append_nil] at h

theorem optional_some (hx : Accepts x field a) : Accepts (optional true x) field (some a) := hx.map some

theorem optional_none (x : BitParser α) : Accepts (optional false x) [] none := pure none

theorem times {fields : α → List Bool} (as : List α) (h : ∀ a ∈ as, Accepts x (fields a) a) :
    Accepts (BitParser.times as.length x) (as.flatMap fields) as := by
  induction as with
  | nil => exact pure []
  | cons a as ih =>
    have htail := ih fun b hb => h b (List.mem_cons_of_mem a hb)
    have hcons := (h a List.mem_cons_self).bind (f := fun a => BitParser.times as.length x >>= fun as => Pure.pure (a :: as))
      (htail.bind (f := fun as => Pure.pure (a :: as)) (pure (a :: as)))
    rwa [List.append_nil] at hcons

end Accepts

/-- The parser gives the value where the field comes next at a position. -/
def AcceptsAt (x : BitParser α) (pos : Nat) (field : List Bool) (a : α) : Prop :=
  ∀ bytes tail, pos ≤ 8 * bytes.length → rest bytes pos = field ++ tail →
    x (at' bytes pos) = .ok (some (a, at' bytes (pos + field.length)))

theorem Accepts.at {x : BitParser α} {field : List Bool} {a : α} (h : Accepts x field a) (pos : Nat) :
    AcceptsAt x pos field a := fun bytes tail => h bytes pos tail

theorem AcceptsAt.bind {x : BitParser α} {f : α → BitParser β} {pos : Nat} {field field' : List Bool} {a : α} {b : β}
    (hx : AcceptsAt x pos field a) (hf : AcceptsAt (f a) (pos + field.length) field' b) :
    AcceptsAt (x >>= f) pos (field ++ field') b := by
  intro bytes tail hpos hrest
  rw [List.append_assoc] at hrest
  have hlen := congrArg List.length hrest
  rw [length_rest, List.length_append, List.length_append] at hlen
  have hnext : rest bytes (pos + field.length) = field' ++ tail := by
    rw [← drop_rest, hrest, List.drop_left]
  rw [bind_ok (hx bytes _ hpos hrest), hf bytes tail (by omega) hnext, List.length_append, Nat.add_assoc]

def fieldAt (bytes : List UInt8) (pos n : Nat) : Nat := ofBits ((rest bytes pos).take n)

def flagAt (bytes : List UInt8) (pos : Nat) : Bool := fieldAt bytes pos 1 != 0

/-- From a position, the parser stays within the buffer, and what it gives meets a postcondition. -/
def Meets (x : BitParser α) (bytes : List UInt8) (pos : Nat) (post : α → Nat → Prop) : Prop :=
  ∃ res, x (at' bytes pos) = .ok res ∧
    ∀ a r, res = some (a, r) → ∃ pos', r = at' bytes pos' ∧ pos' ≤ 8 * bytes.length ∧ post a pos'

namespace Meets

variable {x : BitParser α} {f : α → BitParser β} {bytes : List UInt8} {pos : Nat}

theorem of_value {post : α → Nat → Prop} {a : α} {r : BitReader} (h : Meets x bytes pos post)
    (hvalue : x (at' bytes pos) = .ok (some (a, r))) :
    ∃ pos', r = at' bytes pos' ∧ pos' ≤ 8 * bytes.length ∧ post a pos' := by
  obtain ⟨res, hres, hpost⟩ := h
  rw [hvalue] at hres
  cases hres
  exact hpost a r rfl

theorem pure {post : α → Nat → Prop} {a : α} (hpos : pos ≤ 8 * bytes.length) (h : post a pos) :
    Meets (Pure.pure a) bytes pos post := by
  refine ⟨_, rfl, ?_⟩
  rintro _ _ ⟨⟩
  exact ⟨pos, rfl, hpos, h⟩

theorem bind {post : β → Nat → Prop}
    (hx : Meets x bytes pos fun a pos' => pos' ≤ 8 * bytes.length → Meets (f a) bytes pos' post) :
    Meets (x >>= f) bytes pos post := by
  obtain ⟨res, hres, hpost⟩ := hx
  have hbind : (x >>= f) (at' bytes pos) = BitParser.bind x f (at' bytes pos) := rfl
  rw [Meets, hbind, BitParser.bind, hres]
  cases res with
  | none => exact ⟨none, rfl, fun _ _ h => by cases h⟩
  | some p =>
    obtain ⟨a, r⟩ := p
    obtain ⟨pos', rfl, hpos', hmeets⟩ := hpost a r rfl
    exact hmeets hpos'

theorem require {post : Unit → Nat → Prop} {p : Prop} [Decidable p] (hpos : pos ≤ 8 * bytes.length)
    (h : p → post () pos) : Meets (BitParser.require p) bytes pos post := by
  refine ⟨_, rfl, ?_⟩
  rintro _ _ hres
  split_ifs at hres with hp
  cases hres
  exact ⟨pos, rfl, hpos, h hp⟩

theorem read {post : Nat → Nat → Prop} {tBits n : Nat} (hpos : pos ≤ 8 * bytes.length) (hn : n ≤ tBits)
    (h : pos + n ≤ 8 * bytes.length → post (fieldAt bytes pos n) (pos + n)) :
    Meets (BitParser.read tBits n) bytes pos post := by
  refine ⟨_, read_at hpos hn, ?_⟩
  rintro _ _ hres
  by_cases hfits : pos + n ≤ 8 * bytes.length
  · rw [if_pos hfits] at hres
    cases hres
    exact ⟨_, rfl, hfits, h hfits⟩
  · rw [if_neg hfits] at hres
    cases hres

theorem readUnchecked {post : Nat → Nat → Prop} {tBits n : Nat} (hpos : pos ≤ 8 * bytes.length) (hn : n ≤ tBits)
    (h : pos + n ≤ 8 * bytes.length → post (fieldAt bytes pos n) (pos + n))
    (h' : 8 * bytes.length < pos + n → post (ofBits (rest bytes pos) * 2 ^ (n - (rest bytes pos).length)) (8 * bytes.length)) :
    Meets (BitParser.readUnchecked tBits n) bytes pos post := by
  refine ⟨_, readUnchecked_at hpos hn, ?_⟩
  rintro _ _ hres
  by_cases hfits : pos + n ≤ 8 * bytes.length
  · rw [if_pos hfits] at hres
    cases hres
    exact ⟨_, rfl, hfits, h hfits⟩
  · rw [if_neg hfits] at hres
    cases hres
    exact ⟨_, rfl, Nat.le_refl _, h' (by lia)⟩

theorem mono {post post' : α → Nat → Prop} (hx : Meets x bytes pos post) (h : ∀ a pos', post a pos' → post' a pos') :
    Meets x bytes pos post' := by
  obtain ⟨res, hres, hpost⟩ := hx
  refine ⟨res, hres, fun a r heq => ?_⟩
  obtain ⟨pos', hr, hpos', ha⟩ := hpost a r heq
  exact ⟨pos', hr, hpos', h a pos' ha⟩

theorem optional {post : Option α → Nat → Prop} {present : Bool} (hpos : pos ≤ 8 * bytes.length)
    (hsome : present = true → Meets x bytes pos fun a pos' => post (some a) pos')
    (hnone : present = false → post none pos) : Meets (BitParser.optional present x) bytes pos post := by
  cases present with
  | false => exact pure hpos (hnone rfl)
  | true => exact bind ((hsome rfl).mono fun a pos' ha hpos' => pure hpos' ha)

theorem optional_size {present : Bool} {size : Nat} (hpos : pos ≤ 8 * bytes.length)
    (hx : Meets x bytes pos fun _ pos' => pos' = pos + size) :
    Meets (BitParser.optional present x) bytes pos fun _ pos' => pos' = pos + if present then size else 0 := by
  apply optional hpos
  · intro hpresent
    rwa [if_pos hpresent]
  · intro hpresent
    rw [hpresent, if_neg Bool.false_ne_true, Nat.add_zero]

theorem times {size : Nat} (n : Nat) (hpos : pos ≤ 8 * bytes.length)
    (hx : ∀ pos, pos ≤ 8 * bytes.length → Meets x bytes pos fun _ pos' => pos' = pos + size) :
    Meets (BitParser.times n x) bytes pos fun as pos' => as.length = n ∧ pos' = pos + n * size := by
  induction n generalizing pos with
  | zero => exact pure hpos ⟨rfl, by lia⟩
  | succ n ih =>
    refine bind ((hx pos hpos).mono fun a pos₁ h₁ hpos₁ => ?_)
    refine bind ((ih hpos₁).mono fun as pos₂ h₂ hpos₂ => ?_)
    refine pure hpos₂ ⟨by rw [List.length_cons, h₂.1], ?_⟩
    rw [h₂.2, h₁, Nat.succ_mul]
    omega

end Meets

/-- From every position, the parser stays within the buffer and does not go back. -/
def Forward (x : BitParser α) : Prop :=
  ∀ bytes pos, pos ≤ 8 * bytes.length → Meets x bytes pos fun _ pos' => pos ≤ pos'

end BitParser

end Ocudu
