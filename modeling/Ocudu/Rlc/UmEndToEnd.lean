import Mathlib.Data.List.ReduceOption
import Ocudu.Rlc.UmReordered

/-! UM end to end: a transmitter, and a receiver that gets its PDUs. -/

namespace Ocudu.Rlc

variable {sz : RlcUmSnSize} {a b : Nat} {seg : RlcRxAmSduSegment}

def segmentOf (sz : RlcUmSnSize) (a : Nat) (pdu : UmPdu) : Option RlcRxAmSduSegment :=
  if pdu.sn = some a then
    (umParsePdu sz pdu.buf).map fun (header, payload) => { si := header.si, so := header.so, payload }
  else none

def wholeOf (sz : RlcUmSnSize) (pdu : UmPdu) : Option (List UInt8) :=
  if pdu.sn = none then (umParsePdu sz pdu.buf).map Prod.snd else none

def segsOf (sz : RlcUmSnSize) (a : Nat) (pdus : List UmPdu) : List RlcRxAmSduSegment :=
  pdus.filterMap (segmentOf sz a)

def wholesOf (sz : RlcUmSnSize) (pdus : List UmPdu) : List (List UInt8) := pdus.filterMap (wholeOf sz)

theorem segmentOf_segmentPdu (hseg : seg.Sendable) (hso : seg.so < 2 ^ 16) :
    segmentOf sz a (segmentPdu sz b seg) = if b = a then some seg else none := by
  have hsn : (segmentPdu sz b seg).sn = some b := rfl
  rw [segmentOf, hsn, umParsePdu_segmentPdu hseg hso]
  simp

@[simp] theorem segmentOf_wholePdu (sdu : List UInt8) : segmentOf sz a (wholePdu sz sdu) = none := rfl

@[simp] theorem wholeOf_segmentPdu (seg : RlcRxAmSduSegment) : wholeOf sz (segmentPdu sz a seg) = none := rfl

theorem wholeOf_wholePdu {sdu : List UInt8} (h : sdu ≠ []) : wholeOf sz (wholePdu sz sdu) = some sdu := by
  have hsn : (wholePdu sz sdu).sn = none := rfl
  rw [wholeOf, if_pos hsn, umParsePdu_wholePdu h]
  rfl

theorem Cut.so_lt {bytes left : List UInt8} {segs : List RlcRxAmSduSegment} (h : Cut 0 bytes segs left)
    (hseg : seg ∈ segs) (hshort : bytes.length < 2 ^ 16) : seg.so < 2 ^ 16 := by
  have hbounds := (h.mem_bounds hseg).2
  have hlen : 0 < seg.payload.length := List.length_pos_of_ne_nil (h.sendable hseg).payload_ne
  omega

structure UmSource where
  segs : Nat → List RlcRxAmSduSegment
  bytes : Nat → List UInt8
  left : Nat → List UInt8
  cut : ∀ a, segs a ≠ [] → Cut 0 (bytes a) (segs a) (left a)
  short : ∀ a, (bytes a).length < 2 ^ 16

namespace UmSource

variable (src : UmSource)

/-- The PDUs that can come from the source. -/
def Emits (sz : RlcUmSnSize) (pdu : UmPdu) : Prop :=
  (∃ sdu, sdu ≠ [] ∧ pdu = wholePdu sz sdu) ∨ ∃ a, ∃ seg ∈ src.segs a, pdu = segmentPdu sz a seg

variable {src}

theorem cut_of_mem (h : seg ∈ src.segs a) : Cut 0 (src.bytes a) (src.segs a) (src.left a) :=
  src.cut a (List.ne_nil_of_mem h)

theorem so_lt (h : seg ∈ src.segs a) : seg.so < 2 ^ 16 := (cut_of_mem h).so_lt h (src.short a)

theorem segsOf_cons_segment (h : seg ∈ src.segs a) (b : Nat) (rest : List UmPdu) :
    segsOf sz b (segmentPdu sz a seg :: rest) = if a = b then seg :: segsOf sz b rest else segsOf sz b rest := by
  rw [segsOf, List.filterMap_cons, segmentOf_segmentPdu ((cut_of_mem h).sendable h) (so_lt h)]
  by_cases hab : a = b
  · simp [hab, segsOf]
  · simp [hab, segsOf]

end UmSource

open RlcRxUmEntity

/-- The receiver holds segments that it got, has delivered the SDUs `wholes` and those of the SNs
`got`, and `rest` can still come. -/
structure Received (src : UmSource) (s : RlcRxUmEntity) (top r : Nat) (rest : List UmPdu)
    (got : List Nat) (wholes : List (List UInt8)) : Prop where
  pos : s.At top r
  held : ∀ a info, r ≤ a → a < top → s.rxWindow.lookup (a % s.mod) = some info →
    info.segments.Sublist (src.segs a) ∧
      (segsOf s.cfg.snFieldLength a rest ++ info.segments).Subperm (src.segs a)
  unseen : ∀ a, (segsOf s.cfg.snFieldLength a rest).Subperm (src.segs a)
  nodup : got.Nodup
  done : ∀ a ∈ got, segsOf s.cfg.snFieldLength a rest = [] ∧ src.segs a ≠ [] ∧ src.left a = []
  sdus : s.sdus.Perm (wholes ++ got.map src.bytes)

namespace Received

variable {src : UmSource} {s t : RlcRxUmEntity} {top r : Nat} {rest : List UmPdu} {got : List Nat}
  {wholes : List (List UInt8)} {pdu : UmPdu}

theorem expire (h : Received src s top r rest got wholes) :
    ∃ t r', s.step .expire = .ok t ∧ Received src t top r' rest got wholes ∧ t.cfg = s.cfg := by
  obtain ⟨t, r', ht, hpos, hle, hshr⟩ := h.pos.expire
  have hmod : t.mod = s.mod := by rw [mod, hshr.cfg, mod]
  refine ⟨t, r', ht, ⟨hpos, fun a info hlo hhi hl => ?_, ?_, h.nodup, ?_, ?_⟩, hshr.cfg⟩
  · rw [hshr.cfg]
    rw [hmod] at hl
    exact h.held a info (hle.trans hlo) hhi (hshr.lookup _ info hl)
  · rw [hshr.cfg]
    exact h.unseen
  · rw [hshr.cfg]
    exact h.done
  · rw [hshr.sdus]
    exact h.sdus

theorem whole {sdu : List UInt8} (hsdu : sdu ≠ [])
    (h : Received src s top r (wholePdu s.cfg.snFieldLength sdu :: rest) got wholes) :
    ∃ t, s.step (.handlePdu (wholePdu s.cfg.snFieldLength sdu).buf) = .ok t ∧
      Received src t top r rest got (wholes ++ [sdu]) ∧ t.cfg = s.cfg := by
  have hsegs : ∀ a, segsOf s.cfg.snFieldLength a (wholePdu s.cfg.snFieldLength sdu :: rest) =
      segsOf s.cfg.snFieldLength a rest := fun a => by rw [segsOf, List.filterMap_cons, segmentOf_wholePdu]; rfl
  have hheld := h.held
  have hunseen := h.unseen
  have hdone := h.done
  simp only [hsegs] at hheld hunseen hdone
  refine ⟨{ s with sdus := s.sdus ++ [sdu] }, ?_, ⟨?_, hheld, hunseen, h.nodup, hdone, ?_⟩, rfl⟩
  · simp only [RlcRxUmEntity.step, handlePdu, umParsePdu_wholePdu hsdu, if_true]
  · exact ⟨⟨h.pos.inv.sn_lt, h.pos.inv.trigger_lt, h.pos.inv.highest_lt, h.pos.inv.capacity,
      h.pos.inv.le_highest, h.pos.inv.held⟩, h.pos.highest, h.pos.reassembly, h.pos.le, h.pos.window,
      h.pos.below⟩
  · simp only
    rw [List.append_assoc]
    refine (h.sdus.append_right [sdu]).trans ?_
    rw [List.append_assoc]
    exact List.perm_append_comm.append_left wholes

theorem segsOf_sublist (sz : RlcUmSnSize) (a : Nat) (pdu : UmPdu) (rest : List UmPdu) :
    (segsOf sz a rest).Sublist (segsOf sz a (pdu :: rest)) :=
  (List.sublist_cons_self pdu rest).filterMap _

theorem tail (h : Received src s top r (pdu :: rest) got wholes) : Received src s top r rest got wholes where
  pos := h.pos
  held a info hlo hhi hl := by
    obtain ⟨hsub, hperm⟩ := h.held a info hlo hhi hl
    exact ⟨hsub, ((segsOf_sublist _ a pdu rest).append_right _).subperm.trans hperm⟩
  unseen a := (segsOf_sublist _ a pdu rest).subperm.trans (h.unseen a)
  nodup := h.nodup
  done a ha := by
    obtain ⟨hnil, hsrc⟩ := h.done a ha
    exact ⟨List.sublist_nil.mp (hnil ▸ segsOf_sublist _ a pdu rest), hsrc⟩
  sdus := h.sdus

theorem lookup_above (h : Received src s top r rest got wholes) (hlo : top ≤ a)
    (hhi : a < top + s.umWindowSize) : s.rxWindow.lookup (a % s.mod) = none := by
  rw [Option.eq_none_iff_forall_ne_some]
  intro info hl
  have hbelow := h.pos.below _ info hl
  rw [h.pos.base_mod (by omega) hhi] at hbelow
  omega

theorem sduInfo (h : Received src s top r (segmentPdu s.cfg.snFieldLength a seg :: rest) got wholes)
    (hseg : seg ∈ src.segs a) (hlo : r ≤ a) (hhi : a < top + s.umWindowSize) :
    (s.sduInfo (a % s.mod)).segments.Sublist (src.segs a) ∧
      (seg :: segsOf s.cfg.snFieldLength a rest ++ (s.sduInfo (a % s.mod)).segments).Subperm (src.segs a) := by
  have hunseen := h.unseen a
  rw [UmSource.segsOf_cons_segment hseg, if_pos rfl] at hunseen
  rw [RlcRxUmEntity.sduInfo]
  cases hl : s.rxWindow.lookup (a % s.mod) with
  | none => exact ⟨List.nil_sublist _, by simpa using hunseen⟩
  | some info =>
    have hin : a < top := by
      by_contra hc
      have hnone := h.lookup_above (Nat.not_lt.mp hc) hhi
      rw [hl] at hnone
      cases hnone
    have hheld := h.held a info hlo hin hl
    rw [UmSource.segsOf_cons_segment hseg, if_pos rfl] at hheld
    exact hheld

theorem mod_inj {m a b : Nat} (heq : a % m = b % m) (hab : a < b + m) (hba : b < a + m) : a = b := by
  rcases Nat.le_total a b with hle | hle
  · have hdvd := (Nat.modEq_iff_dvd' hle).mp heq
    have := Nat.eq_zero_of_dvd_of_lt hdvd (by omega)
    omega
  · have hdvd := (Nat.modEq_iff_dvd' hle).mp heq.symm
    have := Nat.eq_zero_of_dvd_of_lt hdvd (by omega)
    omega

section

variable (h : Received src s top r (segmentPdu s.cfg.snFieldLength a seg :: rest) got wholes)
include h

theorem handleSegmentDataSdu (hseg : seg ∈ src.segs a) (hlo : r ≤ a) (hhi : a < top + s.umWindowSize) :
    ∃ info : RlcRxUmSduInfo,
      s.handleSegmentDataSdu { si := seg.si, snSize := s.cfg.snFieldLength, sn := a % s.mod, so := seg.so }
        seg.payload = s.writeSn (a % s.mod) info ∧
      info.segments.Sublist (src.segs a) ∧
      List.Perm info.segments (seg :: (s.sduInfo (a % s.mod)).segments) ∧
      (info.fullyReceived = true → info.segments = src.segs a ∧ src.left a = []) := by
  obtain ⟨hsub, hperm⟩ := h.sduInfo hseg hlo hhi
  have hcut := UmSource.cut_of_mem hseg
  have hnot : seg ∉ (s.sduInfo (a % s.mod)).segments := by
    obtain ⟨l, hl, hls⟩ := hperm
    have hnodup := hl.nodup_iff.mp (hcut.nodup.sublist hls)
    rw [List.cons_append, List.nodup_cons] at hnodup
    exact fun hc => hnodup.1 (List.mem_append_right _ hc)
  obtain ⟨stored, hstored, hstoredSub, hstoredPerm⟩ := hcut.storedSegments_eq hsub hseg hnot
  refine ⟨((s.sduInfo (a % s.mod)).storeSegment seg).updateSegmentInventory, rfl, ?_⟩
  have hsegments : ((s.sduInfo (a % s.mod)).storeSegment seg).updateSegmentInventory.segments = stored := by
    simp only [RlcRxUmSduInfo.updateSegmentInventory, RlcRxUmSduInfo.storeSegment, hstored, Option.getD_some]
  have hfull : ((s.sduInfo (a % s.mod)).storeSegment seg).updateSegmentInventory.fullyReceived =
      (RlcRxAmSduInfo.inventory stored 0).1 := by
    simp only [RlcRxUmSduInfo.updateSegmentInventory, RlcRxUmSduInfo.storeSegment, hstored, Option.getD_some]
  rw [hsegments, hfull]
  exact ⟨hstoredSub, hstoredPerm, hcut.eq_of_fullyReceived hstoredSub⟩

theorem stores (hseg : seg ∈ src.segs a) (hlo : r ≤ a) (hhi : a < top + s.umWindowSize) {info : RlcRxUmSduInfo}
    (hsub : info.segments.Sublist (src.segs a))
    (hperm : List.Perm info.segments (seg :: (s.sduInfo (a % s.mod)).segments))
    (hfull : info.fullyReceived = true → info.segments = src.segs a ∧ src.left a = []) {r' : Nat}
    (hpos : t.At (max top (a + 1)) r') (hle : r ≤ r') (hst : Stores s t a info) :
    ∃ got', Received src t (max top (a + 1)) r' rest got' wholes := by
  have hheld := (h.sduInfo hseg hlo hhi).2
  have hmod : t.mod = s.mod := congrArg (·.snFieldLength.mod) hst.cfg
  have hwin : t.umWindowSize = s.umWindowSize := congrArg (·.snFieldLength.window) hst.cfg
  have hm := s.mod_eq
  have hlow := h.pos.window
  have hlow' := hpos.window
  have htail := h.tail
  have hrest : (segsOf s.cfg.snFieldLength a rest ++ info.segments).Subperm (src.segs a) := by
    refine (List.Perm.subperm ?_).trans hheld
    exact (hperm.append_left _).trans List.perm_middle
  have hwindow : ∀ b v, r' ≤ b → b < max top (a + 1) → t.rxWindow.lookup (b % t.mod) = some v →
      v.segments.Sublist (src.segs b) ∧
        (segsOf t.cfg.snFieldLength b rest ++ v.segments).Subperm (src.segs b) := by
    intro b v hblo hbhi hl
    rw [hst.cfg]
    rw [hmod] at hl
    by_cases hab : b % s.mod = a % s.mod
    · have heq : b = a := mod_inj hab (by omega) (by omega)
      rw [heq] at hl ⊢
      rcases hst.lookup_self v hl with rfl | hnil
      · exact ⟨hsub, hrest⟩
      · rw [hnil, List.append_nil]
        exact ⟨List.nil_sublist _, htail.unseen a⟩
    · have hl' := hst.lookup_other _ v hab hl
      have hin : b < top := by
        by_contra hc
        have hnone := h.lookup_above (a := b) (Nat.not_lt.mp hc) (by omega)
        rw [hl'] at hnone
        cases hnone
      exact htail.held b v (by omega) hin hl'
  by_cases hdone : info.fullyReceived = true
  · obtain ⟨hall, hleft⟩ := hfull hdone
    have hcut : Cut 0 (src.bytes a) info.segments [] := by
      rw [hall, ← hleft]
      exact UmSource.cut_of_mem hseg
    have hsdus := hst.sdus
    rw [if_pos hdone, hcut.reassembleSdu_eq] at hsdus
    have hnil : segsOf s.cfg.snFieldLength a rest = [] := by
      have hlen := hrest.length_le
      rw [hall, List.length_append] at hlen
      exact List.eq_nil_of_length_eq_zero (by omega)
    have hnew : a ∉ got := by
      intro hc
      have hc' := (h.done a hc).1
      rw [UmSource.segsOf_cons_segment hseg, if_pos rfl] at hc'
      cases hc'
    by_cases hmax : info.segments.length ≤ s.cfg.maxSlices
    · refine ⟨a :: got, hpos, hwindow, ?_, List.nodup_cons.mpr ⟨hnew, h.nodup⟩, ?_, ?_⟩
      · rw [hst.cfg]
        exact htail.unseen
      · intro b hb
        rw [hst.cfg]
        rcases List.mem_cons.mp hb with rfl | hb
        · exact ⟨hnil, List.ne_nil_of_mem hseg, hleft⟩
        · exact htail.done b hb
      · rw [hsdus, if_pos hmax, Option.toList_some, List.map_cons]
        refine (h.sdus.append_right _).trans ?_
        rw [List.append_assoc]
        exact (List.perm_append_singleton _ _).append_left wholes
    · refine ⟨got, hpos, hwindow, ?_, h.nodup, ?_, ?_⟩
      · rw [hst.cfg]
        exact htail.unseen
      · rw [hst.cfg]
        exact htail.done
      · rw [hsdus, if_neg hmax, Option.toList_none, List.append_nil]
        exact h.sdus
  · refine ⟨got, hpos, hwindow, ?_, h.nodup, ?_, ?_⟩
    · rw [hst.cfg]
      exact htail.unseen
    · rw [hst.cfg]
      exact htail.done
    · rw [hst.sdus, if_neg hdone, List.append_nil]
      exact h.sdus

theorem segment (hseg : seg ∈ src.segs a) (hlo : top ≤ a + s.umWindowSize) (hhi : a < top + s.umWindowSize) :
    ∃ t r' got', s.step (.handlePdu (segmentPdu s.cfg.snFieldLength a seg).buf) = .ok t ∧
      Received src t (max top (a + 1)) r' rest got' wholes ∧ t.cfg = s.cfg := by
  have hsend := (UmSource.cut_of_mem hseg).sendable hseg
  have hstep : s.step (.handlePdu (segmentPdu s.cfg.snFieldLength a seg).buf) =
      s.handleSegment { si := seg.si, snSize := s.cfg.snFieldLength, sn := a % s.mod, so := seg.so }
        seg.payload := by
    simp only [RlcRxUmEntity.step, handlePdu, umParsePdu_segmentPdu hsend (UmSource.so_lt hseg), hsend.si_ne,
      if_false]
    rfl
  have hbase := h.pos.base_mod hlo hhi
  have hedge := h.pos.base_reassembly
  rw [hstep, RlcRxUmEntity.handleSegment, snInvalidForRxBuffer_eq, hbase, hedge]
  by_cases hold : a < r
  · have htop := h.pos.le
    have hmax : max top (a + 1) = top := max_eq_left (by omega)
    rw [hmax, if_pos (by simp only [decide_eq_true_eq]; omega)]
    exact ⟨s, r, got, rfl, h.tail, rfl⟩
  · have hlow := h.pos.window
    rw [if_neg (by simp only [decide_eq_true_eq]; omega)]
    have hra := Nat.not_lt.mp hold
    obtain ⟨info, hinfo, hsub, hperm, hfull⟩ := h.handleSegmentDataSdu hseg hra hhi
    have hnew : info.fullyReceived = true → a < top := by
      intro hdone
      by_contra hc
      obtain ⟨hall, hleft⟩ := hfull hdone
      have hnone := h.lookup_above (Nat.not_lt.mp hc) hhi
      have hcut := UmSource.cut_of_mem hseg
      rw [hleft] at hcut
      have hlen := hperm.length_eq
      rw [RlcRxUmEntity.sduInfo, hnone, hall] at hlen
      have hone := hcut.one_lt_length
      simp only [Option.getD_none, List.length_cons, List.length_nil] at hlen
      omega
    obtain ⟨t, r', ht, hpos, hle, hst⟩ := h.pos.afterStore hra hhi hnew
    rw [hinfo, ht, ok_bind]
    have hst' := hst.shrinks (shrinks_updateReassemblyTimer t)
    obtain ⟨got', hgot⟩ := h.stores hseg hra hhi hsub hperm hfull hpos.updateReassemblyTimer hle hst'
    exact ⟨t.updateReassemblyTimer, r', got', rfl, hgot, hst'.cfg⟩

end

end Received

def arrival : Option UmPdu → RxUmEvent
  | none => .expire
  | some pdu => .handlePdu pdu.buf

/-- Each segment has an SN less than `window` away from `top`, which is above all SNs before. -/
def withinHalf (window : Nat) : Nat → List (Option UmPdu) → Bool
  | _, [] => true
  | top, none :: fs => withinHalf window top fs
  | top, some { sn := none, .. } :: fs => withinHalf window top fs
  | top, some { sn := some a, .. } :: fs =>
    decide (top ≤ a + window ∧ a < top + window) && withinHalf window (max top (a + 1)) fs

variable {src : UmSource} {s : RlcRxUmEntity} {top r : Nat} {got : List Nat} {wholes : List (List UInt8)}

@[simp] theorem wholesOf_cons_segment (seg : RlcRxAmSduSegment) (rest : List UmPdu) :
    wholesOf sz (segmentPdu sz a seg :: rest) = wholesOf sz rest := by
  rw [wholesOf, List.filterMap_cons, wholeOf_segmentPdu]
  rfl

theorem wholesOf_cons_whole {sdu : List UInt8} (h : sdu ≠ []) (rest : List UmPdu) :
    wholesOf sz (wholePdu sz sdu :: rest) = sdu :: wholesOf sz rest := by
  rw [wholesOf, List.filterMap_cons, wholeOf_wholePdu h]
  rfl

theorem Received.run {fs : List (Option UmPdu)} (h : Received src s top r fs.reduceOption got wholes)
    (hemits : ∀ pdu ∈ fs.reduceOption, src.Emits s.cfg.snFieldLength pdu)
    (hhalf : withinHalf s.umWindowSize top fs = true) :
    ∃ t top' r' got', Machine.run RlcRxUmEntity.step s (fs.map arrival) = .ok t ∧
      Received src t top' r' [] got' (wholes ++ wholesOf s.cfg.snFieldLength fs.reduceOption) := by
  induction fs generalizing s top r got wholes with
  | nil =>
    rw [List.reduceOption_nil] at h ⊢
    exact ⟨s, top, r, got, rfl, by simpa [wholesOf] using h⟩
  | cons f fs ih =>
    cases f with
    | none =>
      rw [List.reduceOption_cons_of_none] at h hemits ⊢
      obtain ⟨t, r', ht, hrec, hcfg⟩ := h.expire
      have hwin : t.umWindowSize = s.umWindowSize := congrArg (·.snFieldLength.window) hcfg
      rw [withinHalf, ← hwin] at hhalf
      obtain ⟨u, top', r'', got', hu, hrec'⟩ := ih hrec (by rw [hcfg]; exact hemits) hhalf
      rw [hcfg] at hrec'
      exact ⟨u, top', r'', got', by rw [List.map_cons, arrival, Machine.run_cons_ok ht, hu], hrec'⟩
    | some pdu =>
      rw [List.reduceOption_cons_of_some] at h hemits ⊢
      have hrest : ∀ pdu ∈ fs.reduceOption, src.Emits s.cfg.snFieldLength pdu :=
        fun p hp => hemits p (List.mem_cons_of_mem _ hp)
      rw [List.map_cons, arrival]
      rcases hemits pdu List.mem_cons_self with ⟨sdu, hsdu, rfl⟩ | ⟨a, seg, hseg, rfl⟩
      · obtain ⟨t, ht, hrec, hcfg⟩ := h.whole hsdu
        have hwin : t.umWindowSize = s.umWindowSize := congrArg (·.snFieldLength.window) hcfg
        rw [wholePdu, withinHalf, ← hwin] at hhalf
        obtain ⟨u, top', r'', got', hu, hrec'⟩ := ih hrec (by rw [hcfg]; exact hrest) hhalf
        rw [hcfg, List.append_assoc] at hrec'
        rw [Machine.run_cons_ok ht, wholesOf_cons_whole hsdu]
        exact ⟨u, top', r'', got', hu, hrec'⟩
      · rw [segmentPdu, withinHalf, Bool.and_eq_true, decide_eq_true_eq] at hhalf
        obtain ⟨⟨hlo, hhi⟩, hnext⟩ := hhalf
        obtain ⟨t, r', got', ht, hrec, hcfg⟩ := h.segment hseg hlo hhi
        have hwin : t.umWindowSize = s.umWindowSize := congrArg (·.snFieldLength.window) hcfg
        rw [← hwin] at hnext
        obtain ⟨u, top', r'', got'', hu, hrec'⟩ := ih hrec (by rw [hcfg]; exact hrest) hnext
        rw [hcfg] at hrec'
        rw [Machine.run_cons_ok ht, wholesOf_cons_segment]
        exact ⟨u, top', r'', got'', hu, hrec'⟩

structure UmCut where
  bytes : List UInt8
  segs : List RlcRxAmSduSegment
  left : List UInt8

def UmEntry.cut? : UmEntry → Option UmCut
  | whole _ => none
  | cut sdu segs => some { bytes := sdu, segs, left := [] }

def UmEntry.whole? : UmEntry → Option (List UInt8)
  | whole sdu => some sdu
  | cut _ _ => none

def UmCut.Ok (c : UmCut) : Prop := Cut 0 c.bytes c.segs c.left ∧ c.bytes.length < 2 ^ 16

def UmSource.ofCuts (cuts : List UmCut) (h : ∀ c ∈ cuts, c.Ok) : UmSource where
  segs a := (cuts[a]?.map (·.segs)).getD []
  bytes a := (cuts[a]?.map (·.bytes)).getD []
  left a := (cuts[a]?.map (·.left)).getD []
  cut a hne := by
    cases hc : cuts[a]? with
    | none => simp [hc] at hne
    | some c => exact (h c (List.mem_of_getElem? hc)).1
  short a := by
    cases hc : cuts[a]? with
    | none => simp
    | some c => exact (h c (List.mem_of_getElem? hc)).2

@[simp] theorem segsOf_append (pdus pdus' : List UmPdu) :
    segsOf sz a (pdus ++ pdus') = segsOf sz a pdus ++ segsOf sz a pdus' := List.filterMap_append

theorem segsOf_map_segmentPdu {bytes left : List UInt8} {segs : List RlcRxAmSduSegment} {so : Nat}
    (h : Cut so bytes segs left) (hshort : so + bytes.length < 2 ^ 16) :
    segsOf sz a (segs.map (segmentPdu sz b)) = if b = a then segs else [] := by
  have hseg : ∀ seg ∈ segs, segmentOf sz a (segmentPdu sz b seg) = if b = a then some seg else none := by
    intro seg hseg
    have hbounds := (h.mem_bounds hseg).2
    have hlen : 0 < seg.payload.length := List.length_pos_of_ne_nil (h.sendable hseg).payload_ne
    exact segmentOf_segmentPdu (h.sendable hseg) (by omega)
  have hcongr : segs.filterMap (segmentOf sz a ∘ segmentPdu sz b) =
      segs.filterMap fun seg => if b = a then some seg else none := List.filterMap_congr hseg
  rw [segsOf, List.filterMap_map, hcongr]
  by_cases hab : b = a
  · simp [hab]
  · simp [hab]

theorem segsOf_logPdus {log : List UmEntry} (hlog : ∀ entry ∈ log, entry.Ok) (n : Nat) :
    segsOf sz a (logPdus sz n log) =
      if n ≤ a then (((log.filterMap UmEntry.cut?)[a - n]?).map (·.segs)).getD [] else [] := by
  induction log generalizing n with
  | nil => simp [logPdus, segsOf]
  | cons entry log ih =>
    have hrest : ∀ entry ∈ log, entry.Ok := fun e he => hlog e (List.mem_cons_of_mem _ he)
    cases entry with
    | whole sdu =>
      rw [logPdus, segsOf, List.filterMap_cons, segmentOf_wholePdu]
      exact ih hrest n
    | cut sdu segs =>
      have hok := hlog _ List.mem_cons_self
      rw [logPdus, segsOf_append, segsOf_map_segmentPdu hok.1 (by rw [Nat.zero_add]; exact hok.2), ih hrest,
        List.filterMap_cons]
      simp only [UmEntry.cut?]
      rcases Nat.lt_trichotomy a n with hlt | rfl | hgt
      · rw [if_neg (by omega), if_neg (by omega), if_neg (by omega), List.append_nil]
      · simp
      · rw [if_neg (by omega), if_pos (by omega), if_pos (by omega), List.nil_append,
          show a - n = a - (n + 1) + 1 by omega, List.getElem?_cons_succ]

@[simp] theorem wholesOf_map_segmentPdu (segs : List RlcRxAmSduSegment) :
    wholesOf sz (segs.map (segmentPdu sz a)) = [] := by
  rw [wholesOf, List.filterMap_map, List.filterMap_eq_nil_iff]
  intro seg _
  exact wholeOf_segmentPdu seg

theorem wholesOf_logPdus {log : List UmEntry} (hlog : ∀ entry ∈ log, entry.Ok) (n : Nat) :
    wholesOf sz (logPdus sz n log) = log.filterMap UmEntry.whole? := by
  induction log generalizing n with
  | nil => rfl
  | cons entry log ih =>
    have hrest : ∀ entry ∈ log, entry.Ok := fun e he => hlog e (List.mem_cons_of_mem _ he)
    cases entry with
    | whole sdu =>
      rw [logPdus, wholesOf_cons_whole (hlog _ List.mem_cons_self), ih hrest]
      rfl
    | cut sdu segs =>
      rw [logPdus, wholesOf, List.filterMap_append]
      change wholesOf sz _ ++ wholesOf sz _ = _
      rw [wholesOf_map_segmentPdu, ih hrest]
      rfl

theorem perm_entries (log : List UmEntry) :
    List.Perm (log.filterMap UmEntry.whole? ++ (log.filterMap UmEntry.cut?).map (·.bytes))
      (log.map UmEntry.sdu) := by
  induction log with
  | nil => exact .refl _
  | cons entry log ih =>
    cases entry with
    | whole sdu => exact ih.cons sdu
    | cut sdu segs => exact List.perm_middle.trans (ih.cons sdu)

namespace UmSender.Logged

variable {u : UmSender} {handed : List (List UInt8)} {log : List UmEntry} {cur : List RlcRxAmSduSegment}

def cuts (u : UmSender) (log : List UmEntry) (cur : List RlcRxAmSduSegment) : List UmCut :=
  log.filterMap UmEntry.cut? ++
    if cur = [] then [] else [{ bytes := u.tx.sdu.buf, segs := cur, left := u.tx.left }]

theorem busy_of_cur (h : u.Logged sz handed log cur) (hcur : cur ≠ []) :
    Cut 0 u.tx.sdu.buf cur u.tx.left ∧ u.tx.left ≠ [] := by
  have hbuf : u.tx.sdu.buf ≠ [] := fun hc => hcur (h.idle hc).1
  refine ⟨(h.busy hbuf).1, ?_⟩
  rw [← List.length_pos_iff_ne_nil, RlcTxUmEntity.left, List.length_drop]
  have := (h.busy hbuf).2
  omega

theorem cuts_ok (h : u.Logged sz handed log cur) (hshort : ∀ sdu ∈ handed, sdu.length < 2 ^ 16) :
    ∀ c ∈ cuts u log cur, c.Ok := by
  intro c hc
  rcases List.mem_append.mp hc with hlog | hcur
  · obtain ⟨entry, hentry, hcut⟩ := List.mem_filterMap.mp hlog
    have hok := h.entries entry hentry
    cases entry with
    | whole sdu => cases hcut
    | cut sdu segs =>
      cases hcut
      exact hok
  · by_cases hnil : cur = []
    · simp [hnil] at hcur
    · rw [if_neg hnil, List.mem_singleton] at hcur
      rw [hcur]
      exact ⟨(h.busy_of_cur hnil).1, h.short hshort⟩

theorem countP_isCut (log : List UmEntry) : log.countP (·.isCut) = (log.filterMap UmEntry.cut?).length := by
  induction log with
  | nil => rfl
  | cons entry log ih =>
    cases entry with
    | whole sdu =>
      rw [List.countP_cons_of_neg (by simp [UmEntry.isCut]), ih]
      rfl
    | cut sdu segs =>
      rw [List.countP_cons_of_pos rfl, ih]
      rfl

theorem segsOf_pdus (h : u.Logged sz handed log cur) (hshort : ∀ sdu ∈ handed, sdu.length < 2 ^ 16) (a : Nat) :
    segsOf sz a u.pdus = (UmSource.ofCuts (cuts u log cur) (h.cuts_ok hshort)).segs a := by
  have hcur : segsOf sz a (cur.map (segmentPdu sz (log.countP (·.isCut)))) =
      if log.countP (·.isCut) = a then cur else [] := by
    by_cases hnil : cur = []
    · simp [hnil, segsOf]
    · exact segsOf_map_segmentPdu (h.busy_of_cur hnil).1 (by rw [Nat.zero_add]; exact h.short hshort)
  rw [h.pdus, segsOf_append, segsOf_logPdus h.entries, hcur, if_pos (Nat.zero_le a), Nat.sub_zero, countP_isCut]
  change _ = ((cuts u log cur)[a]?.map (·.segs)).getD []
  rw [cuts]
  rcases Nat.lt_trichotomy a (log.filterMap UmEntry.cut?).length with hlt | heq | hgt
  · rw [if_neg (by omega), List.append_nil, List.getElem?_append_left hlt]
  · rw [if_pos heq.symm, List.getElem?_append_right (by omega), List.getElem?_eq_none (by omega), heq,
      Nat.sub_self]
    by_cases hnil : cur = []
    · simp [hnil]
    · simp [hnil]
  · rw [if_neg (by omega), List.append_nil, List.getElem?_append_right (by omega),
      List.getElem?_eq_none (by omega), List.getElem?_eq_none]
    split_ifs
    · exact Nat.zero_le _
    · rw [List.length_singleton]
      omega

theorem mem_logPdus (hlog : ∀ entry ∈ log, entry.Ok) {n : Nat} {pdu : UmPdu} (hpdu : pdu ∈ logPdus sz n log) :
    (∃ sdu, sdu ≠ [] ∧ pdu = wholePdu sz sdu) ∨
      ∃ a seg, seg.Sendable ∧ seg.so < 2 ^ 16 ∧ pdu = segmentPdu sz a seg := by
  induction log generalizing n with
  | nil => cases hpdu
  | cons entry log ih =>
    have hok := hlog entry List.mem_cons_self
    have hrest : ∀ entry ∈ log, entry.Ok := fun e he => hlog e (List.mem_cons_of_mem _ he)
    cases entry with
    | whole sdu =>
      rcases List.mem_cons.mp hpdu with rfl | hpdu
      · exact .inl ⟨sdu, hok, rfl⟩
      · exact ih hrest hpdu
    | cut sdu segs =>
      rcases List.mem_append.mp hpdu with hpdu | hpdu
      · obtain ⟨seg, hseg, rfl⟩ := List.mem_map.mp hpdu
        exact .inr ⟨n, seg, hok.1.sendable hseg, hok.1.so_lt hseg hok.2, rfl⟩
      · exact ih hrest hpdu

theorem emits (h : u.Logged sz handed log cur) (hshort : ∀ sdu ∈ handed, sdu.length < 2 ^ 16) {pdu : UmPdu}
    (hpdu : pdu ∈ u.pdus) : (UmSource.ofCuts (cuts u log cur) (h.cuts_ok hshort)).Emits sz pdu := by
  have hshape : (∃ sdu, sdu ≠ [] ∧ pdu = wholePdu sz sdu) ∨
      ∃ a seg, seg.Sendable ∧ seg.so < 2 ^ 16 ∧ pdu = segmentPdu sz a seg := by
    have hmem := hpdu
    rw [h.pdus] at hmem
    rcases List.mem_append.mp hmem with hmem | hmem
    · exact mem_logPdus h.entries hmem
    · obtain ⟨seg, hseg, rfl⟩ := List.mem_map.mp hmem
      have hcut := (h.busy_of_cur (List.ne_nil_of_mem hseg)).1
      exact .inr ⟨_, seg, hcut.sendable hseg, hcut.so_lt hseg (h.short hshort), rfl⟩
  rcases hshape with hwhole | ⟨a, seg, hsend, hso, rfl⟩
  · exact .inl hwhole
  · refine .inr ⟨a, seg, ?_, rfl⟩
    rw [← h.segsOf_pdus hshort a]
    exact List.mem_filterMap.mpr ⟨_, hpdu, by rw [segmentOf_segmentPdu hsend hso, if_pos rfl]⟩

theorem subperm_of_got (h : u.Logged sz handed log cur) (hshort : ∀ sdu ∈ handed, sdu.length < 2 ^ 16)
    {got : List Nat} (hnodup : got.Nodup)
    (hdone : ∀ a ∈ got, (UmSource.ofCuts (cuts u log cur) (h.cuts_ok hshort)).segs a ≠ [] ∧
      (UmSource.ofCuts (cuts u log cur) (h.cuts_ok hshort)).left a = []) :
    (got.map (UmSource.ofCuts (cuts u log cur) (h.cuts_ok hshort)).bytes).Subperm
      ((log.filterMap UmEntry.cut?).map (·.bytes)) := by
  have hlt : ∀ a ∈ got, a < (log.filterMap UmEntry.cut?).length := by
    intro a ha
    by_contra hc
    obtain ⟨hsegs, hleft⟩ := hdone a ha
    change ((cuts u log cur)[a]?.map (·.segs)).getD [] ≠ [] at hsegs
    change ((cuts u log cur)[a]?.map (·.left)).getD [] = [] at hleft
    rw [cuts, List.getElem?_append_right (Nat.not_lt.mp hc)] at hsegs hleft
    by_cases hnil : cur = []
    · simp [hnil] at hsegs
    · rw [if_neg hnil] at hsegs hleft
      cases hpos : a - (log.filterMap UmEntry.cut?).length with
      | zero =>
        rw [hpos] at hleft
        exact (h.busy_of_cur hnil).2 hleft
      | succ k => simp [hpos] at hsegs
  have hsub : got.Subperm (List.range (log.filterMap UmEntry.cut?).length) :=
    hnodup.subperm fun a ha => List.mem_range.mpr (hlt a ha)
  have hrange : (List.range (log.filterMap UmEntry.cut?).length).map
      (UmSource.ofCuts (cuts u log cur) (h.cuts_ok hshort)).bytes = (log.filterMap UmEntry.cut?).map (·.bytes) := by
    refine List.ext_getElem (by simp) fun k hk _ => ?_
    rw [List.length_map, List.length_range] at hk
    rw [List.getElem_map, List.getElem_range, List.getElem_map]
    change ((cuts u log cur)[k]?.map (·.bytes)).getD [] = _
    rw [cuts, List.getElem?_append_left hk, List.getElem?_eq_getElem hk]
    rfl
  rw [← hrange]
  obtain ⟨l, hperm, hl⟩ := hsub
  exact ⟨l.map _, hperm.map _, hl.map _⟩

theorem map_sdu (h : u.Logged sz handed log cur) : u.sent.map (·.sdu) = log.map UmEntry.sdu := by
  rw [h.sent, List.map_map]
  refine List.map_congr_left fun entry _ => ?_
  cases entry <;> rfl

theorem reordered (h : u.Logged sz handed log cur) (hshort : ∀ sdu ∈ handed, sdu.length < 2 ^ 16)
    {cfg : RlcRxUmConfig} (hcfg : cfg.snFieldLength = sz) {fs : List (Option UmPdu)}
    (hfs : fs.reduceOption.Subperm u.pdus) (hhalf : withinHalf sz.window 0 fs = true) :
    ∃ rx, Machine.run RlcRxUmEntity.step (RlcRxUmEntity.new cfg) (fs.map arrival) = .ok rx ∧
      rx.sdus.Subperm (u.sent.map (·.sdu)) ∧
      rx.rxModBase rx.st.rxNextReassembly ≤ rx.umWindowSize := by
  obtain ⟨l, hperm, hl⟩ := hfs
  have hsegs : ∀ a, (segsOf sz a fs.reduceOption).Subperm
      ((UmSource.ofCuts (cuts u log cur) (h.cuts_ok hshort)).segs a) := by
    intro a
    rw [← h.segsOf_pdus hshort a]
    exact ⟨l.filterMap _, hperm.filterMap _, hl.filterMap _⟩
  have hwholes : (wholesOf sz fs.reduceOption).Subperm (log.filterMap UmEntry.whole?) := by
    have hall : wholesOf sz u.pdus = log.filterMap UmEntry.whole? := by
      rw [h.pdus, wholesOf, List.filterMap_append]
      change wholesOf sz _ ++ wholesOf sz _ = _
      rw [wholesOf_map_segmentPdu, List.append_nil, wholesOf_logPdus h.entries]
    rw [← hall]
    exact ⟨l.filterMap _, hperm.filterMap _, hl.filterMap _⟩
  have hnew : Received (UmSource.ofCuts (cuts u log cur) (h.cuts_ok hshort)) (RlcRxUmEntity.new cfg) 0 0
      fs.reduceOption [] [] :=
    { pos := at_new cfg
      held := fun a info _ hlt => absurd hlt (Nat.not_lt_zero a)
      unseen := fun a => by
        change (segsOf cfg.snFieldLength a _).Subperm _
        rw [hcfg]
        exact hsegs a
      nodup := List.nodup_nil
      done := by simp
      sdus := .refl _ }
  have hemits : ∀ pdu ∈ fs.reduceOption, (UmSource.ofCuts (cuts u log cur) (h.cuts_ok hshort)).Emits
      (RlcRxUmEntity.new cfg).cfg.snFieldLength pdu := by
    intro pdu hpdu
    change UmSource.Emits _ cfg.snFieldLength pdu
    rw [hcfg]
    exact h.emits hshort (hl.subset (hperm.mem_iff.mpr hpdu))
  have hwindow : withinHalf (RlcRxUmEntity.new cfg).umWindowSize 0 fs = true := by
    change withinHalf cfg.snFieldLength.window 0 fs = true
    rw [hcfg]
    exact hhalf
  obtain ⟨rx, top, r, got, hrx, hrec⟩ := hnew.run hemits hwindow
  refine ⟨rx, hrx, ?_, hrec.pos.inv.le_highest⟩
  have hgot := h.subperm_of_got hshort hrec.nodup fun a ha => (hrec.done a ha).2
  have hsdus := hrec.sdus
  have hnewcfg : (RlcRxUmEntity.new cfg).cfg.snFieldLength = sz := hcfg
  rw [List.nil_append, hnewcfg] at hsdus
  rw [h.map_sdu]
  exact hsdus.subperm.trans ((hwholes.append hgot).trans (perm_entries log).subperm)

end UmSender.Logged

/-- The transmitter runs on any events, and is then pulled with any grants. -/
theorem umEndToEnd (cfg : RlcTxUmConfig) (hsize : 0 < cfg.queueSize) (hsize' : cfg.queueSize < 2 ^ 32)
    (hbytes : cfg.queueSizeBytes < 2 ^ 32) (rxCfg : RlcRxUmConfig)
    (hcfg : rxCfg.snFieldLength = cfg.snFieldLength) (es : List TxUmEvent)
    (hes : ∀ sdu ∈ es.filterMap TxUmEvent.sdu?, sdu.length < 2 ^ 16)
    (hdiscard : ∀ sn, .discardSdu sn ∈ es → sn < 2 ^ 18) (grants : List Nat) :
    ∃ u v, Machine.run UmSender.step (UmSender.new cfg) es = .ok u ∧
      Machine.run UmSender.step u (grants.map .pullPdu) = .ok v ∧
      -- no SDU is lost or changed in the transmitter
      v.sent.map (·.sdu) ++ v.toSend = u.sent.map (·.sdu) ++ u.toSend ∧
      (v.sent.map (·.sdu)).Sublist (es.filterMap TxUmEvent.sdu?) ∧
      -- all PDUs come in order
      (∃ rx, Machine.run RlcRxUmEntity.step (RlcRxUmEntity.new rxCfg)
          (v.pdus.map fun pdu => .handlePdu pdu.buf) = .ok rx ∧ rx.sdus = delivered rxCfg.maxSlices v.sent) ∧
      -- PDUs are lost and reordered, and t-Reassembly expires
      ∀ fs : List (Option UmPdu), fs.reduceOption.Subperm v.pdus →
        withinHalf rxCfg.snFieldLength.window 0 fs = true →
        ∃ rx, Machine.run RlcRxUmEntity.step (RlcRxUmEntity.new rxCfg) (fs.map arrival) = .ok rx ∧
          rx.sdus.Subperm (v.sent.map (·.sdu)) ∧
          rx.rxModBase rx.st.rxNextReassembly ≤ rx.umWindowSize := by
  obtain ⟨u, log, cur, hu, hlog⟩ := (UmSender.logged_new cfg).run (by simp) hes
  rw [List.nil_append] at hlog
  have hq : u.tx.sduQueue.Inv := by
    refine (UmSender.logged_new cfg).run_queue (by simp) (SduQueue.new_inv hsize hsize' hbytes) hes ?_ hu
    intro sn hsn
    have hlt := hdiscard sn hsn
    unfold SduQueue.stateDiscarded
    omega
  obtain ⟨v, log', cur', hv, hlog', hkept⟩ := hlog.pulls_kept hes hq grants
  refine ⟨u, v, hu, hv, hkept, ?_, ?_, fun fs hfs hhalf => ?_⟩
  · rw [hlog'.map_sdu]
    exact (List.sublist_append_left _ _).trans hlog'.handed
  · obtain ⟨rx, hrx, hsdus, -⟩ := hlog'.inOrder hes rxCfg hcfg
    exact ⟨rx, hrx, hsdus⟩
  · rw [hcfg] at hhalf
    exact hlog'.reordered hes hcfg hfs hhalf

theorem umEndToEnd_swapped :
    ∃ u v rx, Machine.run UmSender.step (UmSender.new ⟨.size6bits, .size12bits, 4, 1000⟩)
        [.handleSdu [0, 1, 2, 3] 0] = .ok u ∧
      Machine.run UmSender.step u ([3, 5].map .pullPdu) = .ok v ∧ v.sent = [⟨[0, 1, 2, 3], 2⟩] ∧
      Machine.run RlcRxUmEntity.step (RlcRxUmEntity.new ⟨.size6bits, 51⟩)
        (v.pdus.reverse.map fun pdu => arrival (some pdu)) = .ok rx ∧ rx.sdus.Subperm [[0, 1, 2, 3]] := by
  obtain ⟨u, v, hu, hv, -, -, -, hall⟩ := umEndToEnd ⟨.size6bits, .size12bits, 4, 1000⟩ (by decide) (by decide)
    (by decide) ⟨.size6bits, 51⟩ rfl [.handleSdu [0, 1, 2, 3] 0] (by decide) (by simp) [3, 5]
  have hboth : (Machine.run UmSender.step (UmSender.new ⟨.size6bits, .size12bits, 4, 1000⟩)
      ([.handleSdu [0, 1, 2, 3] 0] ++ [3, 5].map .pullPdu)).map (fun v => (v.sent, v.pdus)) =
        .ok ([⟨[0, 1, 2, 3], 2⟩], [⟨some 0, [64, 0, 1]⟩, ⟨some 0, [128, 0, 2, 2, 3]⟩]) := by decide +kernel
  rw [Machine.run_append, hu] at hboth
  change (Machine.run UmSender.step u _).map _ = _ at hboth
  rw [hv] at hboth
  obtain ⟨hsent, hpdus⟩ := Prod.mk.inj (Except.ok.inj hboth)
  obtain ⟨rx, hrx, hsub, -⟩ := hall [some ⟨some 0, [128, 0, 2, 2, 3]⟩, some ⟨some 0, [64, 0, 1]⟩]
    (by rw [hpdus]; exact (List.Perm.swap _ _ _).subperm) (by decide)
  rw [hsent] at hsub
  refine ⟨u, v, rx, hu, hv, hsent, ?_, hsub⟩
  rw [hpdus]
  exact hrx

/-- An SDU in more segments than a byte buffer has slices is not delivered; and if all PDUs of an
SN cycle but the first and the last are lost, the two are put together. -/
theorem umEndToEnd_dropped_mixed :
    (Machine.run UmSender.step (UmSender.new ⟨.size6bits, .size12bits, 4, 1000⟩)
        (.handleSdu (List.replicate 106 0) 0 :: (List.replicate 52 5).map .pullPdu)).map
      (fun u => (u.sent.map (·.sdu), u.toSend,
        (Machine.run RlcRxUmEntity.step (RlcRxUmEntity.new ⟨.size6bits, 51⟩)
          (u.pdus.map fun pdu => .handlePdu pdu.buf)).map (·.sdus))) =
      .ok ([List.replicate 106 0], [], .ok []) ∧
    (Machine.run UmSender.step (UmSender.new ⟨.size6bits, .size12bits, 4, 1000⟩)
        ((List.range 65).flatMap fun k =>
          [.handleSdu [0, UInt8.ofNat k, 0, UInt8.ofNat k] 0, .pullPdu 3, .pullPdu 5])).map
      (fun u => ((u.sent.map (·.sdu)).contains [0, 0, 0, 64],
        (Machine.run RlcRxUmEntity.step (RlcRxUmEntity.new ⟨.size6bits, 51⟩)
          ((u.pdus.take 1 ++ u.pdus.drop 129).map fun pdu => .handlePdu pdu.buf)).map (·.sdus))) =
      .ok (false, .ok [[0, 0, 0, 64]]) := by
  decide +kernel

end Ocudu.Rlc
