import Ocudu.Basic.Machine

/-! `sib_pdu_assembler.cpp`: the buffers of the SI messages that a cell broadcasts. A new
configuration is compared with a copy of the last one, and goes to the real-time path through a
triple buffer. -/

namespace Ocudu.Mac

def maxBcchDlSchPduSize : Nat := 2048

abbrev BcchDlSchPayload := List (List UInt8)

def makeLinearBuffer (pdu : List UInt8) : List UInt8 :=
  pdu.take maxBcchDlSchPduSize ++ List.replicate (maxBcchDlSchPduSize - pdu.length) 0

/-- The variant `bcch_payload_type`; `null` is a pointer to nothing, as a new element of the list of
buffers has it. -/
inductive BcchPayload
  | null
  | single (buf : List UInt8)
  | segmented (bufs : List (List UInt8)) (currentSegment : Nat)
  deriving DecidableEq

structure SiMsgBuffer where
  len : Nat := 0
  payload : BcchPayload := .null
  deriving DecidableEq

structure SiBufferSnapshot where
  version : Nat
  siMsgBuffers : List SiMsgBuffer
  deriving DecidableEq

structure SysInfoConfig where
  version : Nat
  siMessages : List BcchDlSchPayload

structure SibInformation where
  version : Nat
  siMsgIndex : Nat
  tbs : Nat
  isRepetition : Bool
  nofTxs : Nat

/-- `pending` and `front` are the triple buffer: what has been committed and not read yet, and what was
read last. `requested` is no data of the source: the SI messages of the last request. -/
structure SibPduAssembler where
  lastSiMessages : List BcchDlSchPayload
  lastCfgBuffers : SiBufferSnapshot
  pending : Option SiBufferSnapshot
  front : SiBufferSnapshot
  currentBuffers : SiBufferSnapshot
  requested : List BcchDlSchPayload

inductive SibFault
  | assertion
  | noSegment
  | nullPointer
  deriving DecidableEq

namespace SibPduAssembler

def resizeBuffers (n : Nat) (bufs : List SiMsgBuffer) : List SiMsgBuffer :=
  bufs.take n ++ List.replicate (n - bufs.length) ({} : SiMsgBuffer)

def saveMessage (msg last : BcchDlSchPayload) (buf : SiMsgBuffer) :
    Except SibFault (BcchDlSchPayload × SiMsgBuffer) :=
  if msg = last then .ok (last, buf)
  else
    match msg with
    | [] => .error .noSegment
    | [segment] => .ok (msg, { len := segment.length, payload := .single (makeLinearBuffer segment) })
    | segment :: segments =>
      if segments.all (·.length = segment.length) then
        .ok (msg, { len := segment.length, payload := .segmented (msg.map makeLinearBuffer) 0 })
      else .error .assertion

/-- The loop over the SI messages; the list of the last ones grows if need be, and does not shrink. -/
def saveMessages : List BcchDlSchPayload → List BcchDlSchPayload → List SiMsgBuffer →
    Except SibFault (List BcchDlSchPayload × List SiMsgBuffer)
  | [], lasts, _ => .ok (lasts, [])
  | msg :: msgs, lasts, bufs => do
    let (last, buf) ← saveMessage msg (lasts.headD []) (bufs.headD ({} : SiMsgBuffer))
    let (lasts, bufs) ← saveMessages msgs lasts.tail bufs.tail
    pure (last :: lasts, buf :: bufs)

def saveBuffers (s : SibPduAssembler) (siVersion : Nat) (req : SysInfoConfig) :
    Except SibFault SibPduAssembler := do
  let (lastSiMessages, siMsgBuffers) ← saveMessages req.siMessages s.lastSiMessages
    (resizeBuffers req.siMessages.length s.lastCfgBuffers.siMsgBuffers)
  pure { s with
    lastSiMessages
    lastCfgBuffers := { version := siVersion, siMsgBuffers }
    requested := req.siMessages }

def new (uninitialised : SiBufferSnapshot) (req : SysInfoConfig) : Except SibFault SibPduAssembler := do
  let s ← saveBuffers
    { lastSiMessages := [], lastCfgBuffers := { version := 0, siMsgBuffers := [] }, pending := none
      front := uninitialised, currentBuffers := uninitialised, requested := [] } 0 req
  pure { s with currentBuffers := s.lastCfgBuffers }

def handleSiChangeRequest (s : SibPduAssembler) (req : SysInfoConfig) : Except SibFault SibPduAssembler :=
  if s.lastCfgBuffers.version = req.version then .error .assertion
  else do
    let s ← s.saveBuffers req.version req
    pure { s with pending := some s.lastCfgBuffers }

def latest (s : SibPduAssembler) : SiBufferSnapshot := s.pending.getD s.front

def fetch (s : SibPduAssembler) (version : Nat) : SibPduAssembler :=
  if version ≠ s.currentBuffers.version then
    { s with pending := none, front := s.latest, currentBuffers := { s.latest with version } }
  else s

def advanceCurrentSegment (nofSegments currentSegment : Nat) : Nat :=
  if currentSegment + 1 = nofSegments then 0 else currentSegment + 1

/-- The bytes of a buffer, and its payload after a segment has been sent. -/
def readPayload (payload : BcchPayload) (info : SibInformation) :
    Except SibFault (List UInt8 × BcchPayload) :=
  match payload with
  | .null => .error .nullPointer
  | .single buf => .ok (buf.take info.tbs, .single buf)
  | .segmented bufs currentSegment =>
    let advance := !info.isRepetition && decide (0 < info.nofTxs)
    if advance = true ∧ bufs.length ≤ 1 then .error .assertion
    else
      let currentSegment := if advance then advanceCurrentSegment bufs.length currentSegment else currentSegment
      match bufs[currentSegment]? with
      | none => .error .assertion
      | some buf => .ok (buf.take info.tbs, .segmented bufs currentSegment)

def encodeSiPdu (s : SibPduAssembler) (info : SibInformation) :
    Except SibFault (List UInt8 × SibPduAssembler) :=
  if maxBcchDlSchPduSize < info.tbs then .error .assertion
  else
    let s := s.fetch info.version
    match s.currentBuffers.siMsgBuffers[info.siMsgIndex]? with
    | none => .ok (List.replicate info.tbs 0, s)
    | some buf =>
      if info.tbs < buf.len then .ok (List.replicate info.tbs 0, s)
      else do
        let (pdu, payload) ← readPayload buf.payload info
        pure (pdu, { s with currentBuffers := { s.currentBuffers with
          siMsgBuffers := s.currentBuffers.siMsgBuffers.set info.siMsgIndex { buf with payload } } })

end SibPduAssembler

inductive SibEvent
  | change (req : SysInfoConfig)
  | encode (info : SibInformation)

namespace SibPduAssembler

def step (s : SibPduAssembler) : SibEvent → Except SibFault SibPduAssembler
  | .change req => s.handleSiChangeRequest req
  | .encode info => (s.encodeSiPdu info).map Prod.snd

end SibPduAssembler

def padded (n : Nat) (segment : List UInt8) : List UInt8 :=
  segment ++ List.replicate (n - segment.length) 0

def BcchPayload.buffers : BcchPayload → List (List UInt8)
  | .null => []
  | .single buf => [buf]
  | .segmented bufs _ => bufs

def BcchPayload.segment : BcchPayload → Nat
  | .null => 0
  | .single _ => 0
  | .segmented _ currentSegment => currentSegment

structure SiMsgBuffer.Holds (buf : SiMsgBuffer) (msg : BcchDlSchPayload) : Prop where
  len : ∀ segment ∈ msg, segment.length = buf.len
  bytes : buf.payload.buffers = msg.map (padded maxBcchDlSchPduSize)
  current : buf.payload.segment < msg.length
  segmented : ∀ bufs i, buf.payload = .segmented bufs i → 1 < bufs.length

def WellFormedMessage (msg : BcchDlSchPayload) : Prop :=
  msg ≠ [] ∧ ∀ segment ∈ msg, segment.length ≤ maxBcchDlSchPduSize

def SysInfoConfig.WellFormed (req : SysInfoConfig) : Prop := ∀ msg ∈ req.siMessages, WellFormedMessage msg

theorem makeLinearBuffer_eq {segment : List UInt8} (h : segment.length ≤ maxBcchDlSchPduSize) :
    makeLinearBuffer segment = padded maxBcchDlSchPduSize segment := by
  rw [makeLinearBuffer, padded, List.take_of_length_le h]

theorem take_padded {segment : List UInt8} {m n : Nat} (hm : segment.length ≤ m) (hn : m ≤ n) :
    (padded n segment).take m = padded m segment := by
  rw [padded, padded, List.take_append, List.take_of_length_le hm, List.take_replicate]
  congr 2
  omega

theorem forall₂_getElem? {α β : Type*} {R : α → β → Prop} {l : List α} {l' : List β} (h : List.Forall₂ R l l')
    {i : Nat} {b : β} (hb : l'[i]? = some b) : ∃ a, l[i]? = some a ∧ R a b := by
  induction h generalizing i with
  | nil => cases hb
  | cons hab _ ih =>
    cases i with
    | zero =>
      cases hb
      exact ⟨_, rfl, hab⟩
    | succ i => exact ih hb

theorem forall₂_set {α β : Type*} {R : α → β → Prop} {l : List α} {l' : List β} (h : List.Forall₂ R l l')
    {i : Nat} {a : α} {b : β} (hb : l'[i]? = some b) (hab : R a b) : List.Forall₂ R (l.set i a) l' := by
  induction h generalizing i with
  | nil => cases hb
  | cons hhead htail ih =>
    cases i with
    | zero =>
      cases hb
      exact .cons hab htail
    | succ i => exact .cons hhead (ih hb)

namespace SibPduAssembler

/-- A change brings back no message at an index that the last change left out, and its version is not
that of the buffers in use. Before the first change, PDUs of the first version only are encoded. -/
def Steady (s : SibPduAssembler) : SibEvent → Prop
  | .change req =>
    req.WellFormed ∧ req.version ≠ s.currentBuffers.version ∧
      ∀ i, s.lastCfgBuffers.siMsgBuffers.length ≤ i → i < req.siMessages.length →
        s.lastSiMessages[i]? ≠ req.siMessages[i]?
  | .encode info => info.version = s.currentBuffers.version ∨ s.latest = s.lastCfgBuffers

instance (msg : BcchDlSchPayload) : Decidable (WellFormedMessage msg) :=
  inferInstanceAs (Decidable (_ ∧ _))

instance (req : SysInfoConfig) : Decidable req.WellFormed :=
  inferInstanceAs (Decidable (∀ msg ∈ req.siMessages, _))

instance (s : SibPduAssembler) (e : SibEvent) : Decidable (s.Steady e) :=
  match e with
  | .change _ => inferInstanceAs (Decidable (_ ∧ _ ∧ _))
  | .encode _ => inferInstanceAs (Decidable (_ ∨ _))

structure Inv (s : SibPduAssembler) : Prop where
  buffers : List.Forall₂ SiMsgBuffer.Holds s.lastCfgBuffers.siMsgBuffers s.requested
  shadow : s.requested <+: s.lastSiMessages
  committed : s.latest = s.lastCfgBuffers ∨ s.currentBuffers.version = s.lastCfgBuffers.version
  current : s.currentBuffers.version = s.lastCfgBuffers.version →
    List.Forall₂ SiMsgBuffer.Holds s.currentBuffers.siMsgBuffers s.requested

variable {s t : SibPduAssembler}

theorem saveMessage_holds {msg last last' : BcchDlSchPayload} {buf buf' : SiMsgBuffer} (hwf : WellFormedMessage msg)
    (hsame : msg = last → buf.Holds msg) (h : saveMessage msg last buf = .ok (last', buf')) :
    last' = msg ∧ buf'.Holds msg := by
  unfold saveMessage at h
  by_cases heq : msg = last
  · rw [if_pos heq] at h
    cases h
    exact ⟨heq.symm, hsame heq⟩
  rw [if_neg heq] at h
  match msg, hwf with
  | [], hwf => exact absurd rfl hwf.1
  | [segment], hwf =>
    cases h
    refine ⟨rfl, by simp, ?_, by simp [BcchPayload.segment], by simp⟩
    rw [BcchPayload.buffers, makeLinearBuffer_eq (hwf.2 _ List.mem_cons_self), List.map_singleton]
  | segment :: next :: segments, hwf =>
    simp only at h
    split_ifs at h with hall
    cases h
    refine ⟨rfl, ?_, ?_, by simp [BcchPayload.segment], ?_⟩
    · intro seg hseg
      rcases List.mem_cons.mp hseg with rfl | hseg
      · rfl
      · simpa using List.all_eq_true.mp hall seg hseg
    · exact List.map_congr_left fun seg hseg => makeLinearBuffer_eq (hwf.2 seg hseg)
    · intro bufs i hi
      cases hi
      simp

theorem saveMessages_holds {msgs lasts lasts' : List BcchDlSchPayload} {bufs bufs' : List SiMsgBuffer}
    (hwf : ∀ msg ∈ msgs, WellFormedMessage msg)
    (hsame : ∀ i msg, msgs[i]? = some msg → lasts[i]? = some msg → (bufs.getD i {}).Holds msg)
    (h : saveMessages msgs lasts bufs = .ok (lasts', bufs')) :
    List.Forall₂ SiMsgBuffer.Holds bufs' msgs ∧ msgs <+: lasts' := by
  induction msgs generalizing lasts bufs lasts' bufs' with
  | nil =>
    cases h
    exact ⟨.nil, List.nil_prefix⟩
  | cons msg msgs ih =>
    obtain ⟨⟨last, buf⟩, hmsg, h⟩ := bind_eq_ok.mp h
    obtain ⟨⟨lasts₁, bufs₁⟩, hmsgs, h⟩ := bind_eq_ok.mp h
    cases h
    have hhead : msg = lasts.headD [] → (bufs.headD {}).Holds msg := by
      intro heq
      cases lasts with
      | nil => exact absurd heq (hwf msg List.mem_cons_self).1
      | cons l lasts =>
        cases heq
        have hbuf := hsame 0 l rfl rfl
        cases bufs with
        | nil => exact hbuf
        | cons b bufs => exact hbuf
    obtain ⟨rfl, hbuf⟩ := saveMessage_holds (hwf msg List.mem_cons_self) hhead hmsg
    have htail : ∀ i m, msgs[i]? = some m → lasts.tail[i]? = some m → (bufs.tail.getD i {}).Holds m := by
      intro i m hm hl
      rw [List.getElem?_tail] at hl
      have hbufs := hsame (i + 1) m hm hl
      cases bufs with
      | nil => exact hbufs
      | cons b bufs => exact hbufs
    obtain ⟨hbufs, hpre⟩ := ih (fun m hm => hwf m (List.mem_cons_of_mem _ hm)) htail hmsgs
    exact ⟨.cons hbuf hbufs, (List.cons_prefix_cons).mpr ⟨rfl, hpre⟩⟩

theorem getD_resizeBuffers {n i : Nat} {bufs : List SiMsgBuffer} (hi : i < bufs.length) (hn : i < n) :
    (resizeBuffers n bufs).getD i {} = bufs.getD i {} := by
  simp [resizeBuffers, List.getD, List.getElem?_append, hi, hn]

theorem saveBuffers_holds {version : Nat} {req : SysInfoConfig} (hbufs :
      List.Forall₂ SiMsgBuffer.Holds s.lastCfgBuffers.siMsgBuffers s.requested)
    (hshadow : s.requested <+: s.lastSiMessages) (hwf : req.WellFormed)
    (hnew : ∀ i, s.lastCfgBuffers.siMsgBuffers.length ≤ i → i < req.siMessages.length →
      s.lastSiMessages[i]? ≠ req.siMessages[i]?)
    (h : s.saveBuffers version req = .ok t) :
    List.Forall₂ SiMsgBuffer.Holds t.lastCfgBuffers.siMsgBuffers t.requested ∧ t.requested <+: t.lastSiMessages ∧
      t.requested = req.siMessages ∧ t.lastCfgBuffers.version = version ∧ t.currentBuffers = s.currentBuffers := by
  obtain ⟨⟨lasts, bufs⟩, hsave, h⟩ := bind_eq_ok.mp h
  cases h
  have hsame : ∀ i msg, req.siMessages[i]? = some msg → s.lastSiMessages[i]? = some msg →
      ((resizeBuffers req.siMessages.length s.lastCfgBuffers.siMsgBuffers).getD i {}).Holds msg := by
    intro i msg hmsg hlast
    have hi : i < req.siMessages.length := (List.getElem?_eq_some_iff.mp hmsg).1
    -- only what the last request had can be the same
    have hold : i < s.lastCfgBuffers.siMsgBuffers.length := by
      by_contra hge
      exact hnew i (not_lt.mp hge) hi (by rw [hlast, hmsg])
    have hreq : s.requested[i]? = some msg := by
      rw [← hlast]
      exact (List.prefix_iff_getElem?.mp hshadow i (hbufs.length_eq ▸ hold)).symm ▸ List.getElem?_eq_getElem _
    obtain ⟨buf, hbuf, hholds⟩ := forall₂_getElem? hbufs hreq
    rw [getD_resizeBuffers hold hi, List.getD, hbuf]
    exact hholds
  obtain ⟨hholds, hpre⟩ := saveMessages_holds hwf hsame hsave
  exact ⟨hholds, hpre, rfl, rfl, rfl⟩

theorem inv_new {uninitialised : SiBufferSnapshot} {req : SysInfoConfig} (hwf : req.WellFormed)
    (h : new uninitialised req = .ok s) : Inv s := by
  obtain ⟨t, hsave, h⟩ := bind_eq_ok.mp h
  cases h
  obtain ⟨hbufs, hshadow, -⟩ := saveBuffers_holds .nil List.nil_prefix hwf (by
    intro i _ hi heq
    rw [List.getElem?_eq_getElem hi] at heq
    cases heq) hsave
  exact ⟨hbufs, hshadow, .inr rfl, fun _ => hbufs⟩

theorem Inv.change {req : SysInfoConfig} (h : Inv s) (hsteady : s.Steady (.change req))
    (ht : s.handleSiChangeRequest req = .ok t) : Inv t := by
  unfold handleSiChangeRequest at ht
  split_ifs at ht
  obtain ⟨u, hsave, ht⟩ := bind_eq_ok.mp ht
  cases ht
  obtain ⟨hwf, hversion, hnew⟩ := hsteady
  obtain ⟨hbufs, hshadow, -, hu, hcur⟩ := saveBuffers_holds h.buffers h.shadow hwf hnew hsave
  refine ⟨hbufs, hshadow, .inl rfl, fun hv => absurd ?_ hversion⟩
  rw [← hu, ← hcur]
  exact hv.symm

theorem Inv.fetch (h : Inv s) {info : SibInformation} (hsteady : s.Steady (.encode info)) :
    Inv (s.fetch info.version) := by
  unfold SibPduAssembler.fetch
  split_ifs with hv
  · have hlatest : s.latest = s.lastCfgBuffers := hsteady.resolve_left hv
    refine ⟨h.buffers, h.shadow, .inl hlatest, fun _ => ?_⟩
    change List.Forall₂ SiMsgBuffer.Holds s.latest.siMsgBuffers s.requested
    rw [hlatest]
    exact h.buffers
  · exact h

theorem advanceCurrentSegment_eq {n i : Nat} (h : i < n) : advanceCurrentSegment n i = (i + 1) % n := by
  unfold advanceCurrentSegment
  split_ifs with hlast
  · rw [hlast, Nat.mod_self]
  · exact (Nat.mod_eq_of_lt (Nat.lt_of_le_of_ne h hlast)).symm

def nextSegment (msg : BcchDlSchPayload) (info : SibInformation) (i : Nat) : Nat :=
  if !info.isRepetition && decide (0 < info.nofTxs) then (i + 1) % msg.length else i

theorem nextSegment_lt {msg : BcchDlSchPayload} {i : Nat} (info : SibInformation) (h : i < msg.length) :
    nextSegment msg info i < msg.length := by
  unfold nextSegment
  split_ifs
  · exact Nat.mod_lt _ (Nat.zero_lt_of_lt h)
  · exact h

theorem readPayload_holds {buf : SiMsgBuffer} {msg : BcchDlSchPayload} {info : SibInformation} (h : buf.Holds msg)
    (hlen : buf.len ≤ info.tbs) (htbs : info.tbs ≤ maxBcchDlSchPduSize) :
    ∃ segment payload, readPayload buf.payload info = .ok (padded info.tbs segment, payload) ∧
      SiMsgBuffer.Holds { buf with payload } msg ∧ msg[nextSegment msg info buf.payload.segment]? = some segment := by
  obtain ⟨len, payload⟩ := buf
  have hbytes : payload.buffers = msg.map (padded maxBcchDlSchPduSize) := h.bytes
  have hsent : ∀ (i : Nat) segment, msg[i]? = some segment →
      (padded maxBcchDlSchPduSize segment).take info.tbs = padded info.tbs segment := by
    intro i segment hi
    refine take_padded ?_ htbs
    rw [h.len segment (List.mem_of_getElem? hi)]
    exact hlen
  cases payload with
  | null =>
    have hcur := h.current
    rw [List.map_eq_nil_iff.mp hbytes.symm] at hcur
    cases hcur
  | single b =>
    obtain ⟨segment, rfl, hb⟩ : ∃ segment, msg = [segment] ∧ padded maxBcchDlSchPduSize segment = b := by
      simpa [BcchPayload.buffers, List.map_eq_singleton_iff] using hbytes.symm
    have hsame : nextSegment [segment] info 0 = 0 := by
      rw [nextSegment, List.length_singleton, Nat.mod_one, ite_self]
    refine ⟨segment, .single b, ?_, h, ?_⟩
    · rw [readPayload, ← hb, hsent 0 segment rfl]
    · rw [BcchPayload.segment, hsame]
      rfl
  | segmented bufs i =>
    have hmany := h.segmented bufs i rfl
    have hcount : bufs.length = msg.length := by
      rw [show bufs = _ from hbytes, List.length_map]
    have hread : ∀ j : Nat, j < msg.length → ∃ segment, msg[j]? = some segment ∧
        bufs[j]? = some (padded maxBcchDlSchPduSize segment) := by
      intro j hj
      refine ⟨msg.get ⟨j, hj⟩, List.getElem?_eq_getElem hj, ?_⟩
      rw [show bufs = _ from hbytes, List.getElem?_map, List.getElem?_eq_getElem hj]
      rfl
    have hcur : i < msg.length := h.current
    have hadvance : advanceCurrentSegment bufs.length i = (i + 1) % msg.length := by
      rw [hcount, advanceCurrentSegment_eq hcur]
    have hnext : (if (!info.isRepetition && decide (0 < info.nofTxs)) = true then (i + 1) % msg.length else i) =
        nextSegment msg info i := rfl
    obtain ⟨segment, hseg, hbuf⟩ := hread _ (nextSegment_lt info hcur)
    refine ⟨segment, .segmented bufs (nextSegment msg info i), ?_,
      ⟨h.len, hbytes, nextSegment_lt info hcur, ?_⟩, hseg⟩
    · simp only [readPayload, hadvance]
      rw [if_neg fun hc => absurd hmany (not_lt.mpr hc.2)]
      rw [hnext, hbuf]
      simp only [hsent _ segment hseg]
    · intro bs j hj
      cases hj
      exact hmany

theorem Inv.encode {info : SibInformation} {pdu : List UInt8} (h : Inv s) (hsteady : s.Steady (.encode info))
    (ht : s.encodeSiPdu info = .ok (pdu, t)) : Inv t := by
  have hfetch := h.fetch hsteady
  unfold encodeSiPdu at ht
  split_ifs at ht with htbs
  generalize s.fetch info.version = u at ht hfetch
  simp only at ht
  cases hbuf : u.currentBuffers.siMsgBuffers[info.siMsgIndex]? with
  | none =>
    rw [hbuf] at ht
    cases ht
    exact hfetch
  | some buf =>
    simp only [hbuf] at ht
    by_cases hlen : info.tbs < buf.len
    · rw [if_pos hlen] at ht
      cases ht
      exact hfetch
    rw [if_neg hlen] at ht
    obtain ⟨⟨bytes, payload⟩, hread, ht⟩ := bind_eq_ok.mp ht
    cases ht
    refine ⟨hfetch.buffers, hfetch.shadow, hfetch.committed, fun hv => ?_⟩
    have hcur := hfetch.current hv
    obtain ⟨msg, hmsg⟩ : ∃ msg, u.requested[info.siMsgIndex]? = some msg := by
      refine ⟨_, List.getElem?_eq_getElem ?_⟩
      rw [← hcur.length_eq]
      exact (List.getElem?_eq_some_iff.mp hbuf).1
    obtain ⟨buf', hbuf', hholds⟩ := forall₂_getElem? hcur hmsg
    rw [hbuf] at hbuf'
    cases hbuf'
    obtain ⟨segment, payload', hread', hholds', -⟩ :=
      readPayload_holds hholds (not_lt.mp hlen) (not_lt.mp htbs)
    rw [hread] at hread'
    cases hread'
    exact forall₂_set hcur hmsg hholds'

theorem Inv.step {e : SibEvent} (h : Inv s) (hsteady : s.Steady e) (ht : s.step e = .ok t) : Inv t := by
  cases e with
  | change req => exact h.change hsteady ht
  | encode info =>
    rw [SibPduAssembler.step] at ht
    cases hp : s.encodeSiPdu info with
    | error f =>
      rw [hp] at ht
      cases ht
    | ok p =>
      rw [hp] at ht
      cases ht
      exact h.encode hsteady hp

end SibPduAssembler

end Ocudu.Mac
