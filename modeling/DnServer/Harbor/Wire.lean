import DnServer.Lib.LittleEndian

/-!
# Messages between harbors

What `service_harbor.c` writes to another harbor for a message, and how the other
side takes it apart. A message that is sent at once and one that waited in the
queue of its name go through different functions; the header of the second lies
behind the payload in host order until the name is known.
-/

namespace DnServer.Harbor

open DnServer.Lib

def HANDLE_MASK : BitVec 32 := 0xffffff

def HANDLE_REMOTE_SHIFT : ℕ := 24

def REMOTE_MAX : ℕ := 256

def PTYPE_TAG_DONTCOPY : BitVec 32 := 0x10000

/-- `struct remote_message_header`; a session is an `int` by its bits. -/
structure RemoteMessageHeader where
  source : BitVec 32
  destination : BitVec 32
  session : BitVec 32
  deriving DecidableEq, Repr

/-- What is in memory for a word of the host, a little-endian machine. -/
def hostBytes (x : BitVec 32) : List UInt8 := littleEndian 4 x.toNat

def ofHostBytes (bs : List UInt8) : BitVec 32 := BitVec.ofNat 32 (ofLittleEndian bs)

/-- What is in memory for `htonl(x)`. -/
def htonl (x : BitVec 32) : List UInt8 := (hostBytes x).reverse

/-- `ntohl` of the word in memory. -/
def ntohl (bs : List UInt8) : BitVec 32 := ofHostBytes bs.reverse

/-- The header as it lies in memory. -/
def RemoteMessageHeader.bytes (h : RemoteMessageHeader) : List UInt8 :=
  hostBytes h.source ++ hostBytes h.destination ++ hostBytes h.session

def RemoteMessageHeader.ofBytes (bs : List UInt8) : RemoteMessageHeader where
  source := ofHostBytes (bs.take 4)
  destination := ofHostBytes ((bs.drop 4).take 4)
  session := ofHostBytes ((bs.drop 8).take 4)

/-- `_header_to_message`. -/
def header_to_message (h : RemoteMessageHeader) : List UInt8 :=
  htonl h.source ++ htonl h.destination ++ htonl h.session

/-- `_message_to_header`. -/
def message_to_header (message : List UInt8) : RemoteMessageHeader where
  source := ntohl (message.take 4)
  destination := ntohl ((message.drop 4).take 4)
  session := ntohl ((message.drop 8).take 4)

/-- What `_send_package` gives to `writev`. -/
def send_package (buffer : List UInt8) : List UInt8 :=
  htonl (BitVec.ofNat 32 buffer.length) ++ buffer

/-- What `_send_remote` gives to `writev`. -/
def send_remote (buffer : List UInt8) (cookie : RemoteMessageHeader) : List UInt8 :=
  htonl (BitVec.ofNat 32 (buffer.length + 12)) ++ buffer ++ header_to_message cookie

/-- The buffer of the slot that `_push_queue` fills. -/
def push_queue (buffer : List UInt8) (header : RemoteMessageHeader) : List UInt8 :=
  buffer ++ header.bytes

/-! ## The two senders -/

/-- The header in `_remote_send_handle`. -/
def remote_send_handle_cookie (source destination type session : BitVec 32) :
    RemoteMessageHeader where
  source := source
  destination := (destination &&& HANDLE_MASK) ||| (type <<< HANDLE_REMOTE_SHIFT)
  session := session

/-- The header in `_remote_send_name`, for a name that has no handle yet. -/
def remote_send_name_header (source type session : BitVec 32) : RemoteMessageHeader where
  source := source
  destination := type <<< HANDLE_REMOTE_SHIFT
  session := session

/-- A slot of the queue in `_dispatch_queue`, with the handle that the name has now: the
header at its end is completed and rewritten in place. -/
def dispatch_slot (buffer : List UInt8) (handle : BitVec 32) : List UInt8 :=
  let cookie := RemoteMessageHeader.ofBytes (buffer.drop (buffer.length - 12))
  buffer.take (buffer.length - 12) ++
    header_to_message { cookie with destination := cookie.destination ||| (handle &&& HANDLE_MASK) }

/-! ## The receiver -/

/-- What the harbor does with a message from another one. -/
inductive HarborIn
  | update_remote_address (harbor_id : BitVec 32) (ip : List UInt8)
  | update_remote_name (name : List UInt8) (handle : BitVec 32)
  /-- The arguments of `skynet_send`. -/
  | send (source destination type session : BitVec 32) (msg : List UInt8)
  deriving DecidableEq, Repr

/-- The branch `PTYPE_HARBOR` of `_mainloop`, in the harbor `id`. -/
def mainloop_harbor (id : BitVec 32) (msg : List UInt8) : HarborIn :=
  let header := message_to_header (msg.drop (msg.length - 12))
  let body := msg.take (msg.length - 12)
  if header.source = 0 then
    if header.destination.toNat < REMOTE_MAX then .update_remote_address header.destination body
    else .update_remote_name body header.destination
  else
    .send header.source
      ((header.destination &&& HANDLE_MASK) ||| (id <<< HANDLE_REMOTE_SHIFT))
      ((header.destination >>> HANDLE_REMOTE_SHIFT) ||| PTYPE_TAG_DONTCOPY)
      header.session body

/-- What `skynet_send` keeps of the type. -/
def filter_type (type : BitVec 32) : BitVec 32 := type &&& 0xff

/-! ## Round trips -/

theorem hostBytes_length (x : BitVec 32) : (hostBytes x).length = 4 := littleEndian_length 4 _

theorem htonl_length (x : BitVec 32) : (htonl x).length = 4 := by
  rw [htonl, List.length_reverse, hostBytes_length]

theorem header_to_message_length (h : RemoteMessageHeader) :
    (header_to_message h).length = 12 := by
  simp [header_to_message, htonl_length]

theorem header_bytes_length (h : RemoteMessageHeader) : h.bytes.length = 12 := by
  simp [RemoteMessageHeader.bytes, hostBytes_length]

theorem ofHostBytes_hostBytes (x : BitVec 32) : ofHostBytes (hostBytes x) = x := by
  rw [ofHostBytes, hostBytes, ofLittleEndian_of_lt x.isLt, BitVec.ofNat_toNat, BitVec.setWidth_eq]

theorem ntohl_htonl (x : BitVec 32) : ntohl (htonl x) = x := by
  rw [ntohl, htonl, List.reverse_reverse, ofHostBytes_hostBytes]

/-- Three words of four bytes, one behind the other. -/
theorem words_split {a b c : List UInt8} (ha : a.length = 4) (hb : b.length = 4)
    (hc : c.length = 4) :
    (a ++ b ++ c).take 4 = a ∧ ((a ++ b ++ c).drop 4).take 4 = b ∧
      ((a ++ b ++ c).drop 8).take 4 = c := by
  refine ⟨?_, ?_, ?_⟩
  · rw [List.append_assoc, List.take_left' ha]
  · rw [List.append_assoc, List.drop_left' ha, List.take_left' hb]
  · rw [List.drop_left' (by rw [List.length_append, ha, hb])]
    exact List.take_of_length_le hc.le

theorem message_to_header_header_to_message (h : RemoteMessageHeader) :
    message_to_header (header_to_message h) = h := by
  obtain ⟨h1, h2, h3⟩ := words_split (htonl_length h.source) (htonl_length h.destination)
    (htonl_length h.session)
  unfold message_to_header header_to_message
  rw [h1, h2, h3, ntohl_htonl, ntohl_htonl, ntohl_htonl]

theorem header_ofBytes_bytes (h : RemoteMessageHeader) : .ofBytes h.bytes = h := by
  obtain ⟨h1, h2, h3⟩ := words_split (hostBytes_length h.source) (hostBytes_length h.destination)
    (hostBytes_length h.session)
  unfold RemoteMessageHeader.ofBytes RemoteMessageHeader.bytes
  rw [h1, h2, h3, ofHostBytes_hostBytes, ofHostBytes_hostBytes, ofHostBytes_hostBytes]

/-- What stands before the last twelve bytes, and those. -/
theorem split_cookie (buffer : List UInt8) {tail : List UInt8} (h : tail.length = 12) :
    (buffer ++ tail).take ((buffer ++ tail).length - 12) = buffer ∧
      (buffer ++ tail).drop ((buffer ++ tail).length - 12) = tail := by
  rw [List.length_append, h, Nat.add_sub_cancel]
  exact ⟨List.take_left' rfl, List.drop_left' rfl⟩

theorem dispatch_slot_push_queue (buffer : List UInt8) (header : RemoteMessageHeader)
    (handle : BitVec 32) :
    dispatch_slot (push_queue buffer header) handle = buffer ++ header_to_message
      { header with destination := header.destination ||| (handle &&& HANDLE_MASK) } := by
  obtain ⟨htake, hdrop⟩ := split_cookie buffer (header_bytes_length header)
  unfold dispatch_slot push_queue
  rw [htake, hdrop, header_ofBytes_bytes]

/-! ## Bits of the destination -/

theorem HANDLE_MASK_getLsbD (i : ℕ) : HANDLE_MASK.getLsbD i = decide (i < 24) := by
  show (BitVec.ofNat 32 (2 ^ 24 - 1)).getLsbD i = _
  rw [BitVec.getLsbD_ofNat, Nat.testBit_two_pow_sub_one]
  by_cases h : i < 24
  · simp [h, Nat.lt_trans h (by decide : 24 < 32)]
  · simp [h]

/-- The low bits of the destination are the handle's. -/
theorem destination_low (handle type : BitVec 32) :
    ((handle &&& HANDLE_MASK) ||| (type <<< HANDLE_REMOTE_SHIFT)) &&& HANDLE_MASK =
      handle &&& HANDLE_MASK := by
  refine BitVec.eq_of_getLsbD_eq fun i _ => ?_
  simp only [BitVec.getLsbD_and, BitVec.getLsbD_or, BitVec.getLsbD_shiftLeft, HANDLE_MASK_getLsbD,
    HANDLE_REMOTE_SHIFT]
  by_cases h : i < 24 <;> simp [h]

/-- The high bits of the destination are the type. -/
theorem destination_high (handle : BitVec 32) {type : BitVec 32} (ht : type.toNat ≤ 255) :
    ((handle &&& HANDLE_MASK) ||| (type <<< HANDLE_REMOTE_SHIFT)) >>> HANDLE_REMOTE_SHIFT =
      type := by
  refine BitVec.eq_of_getLsbD_eq fun i hi => ?_
  simp only [BitVec.getLsbD_ushiftRight, BitVec.getLsbD_and, BitVec.getLsbD_or,
    BitVec.getLsbD_shiftLeft, HANDLE_MASK_getLsbD, HANDLE_REMOTE_SHIFT]
  by_cases h : i < 8
  · simp [show 24 + i < 32 by omega]
  · -- a type has no bits there
    have hzero : type.getLsbD i = false := by
      refine Nat.testBit_lt_two_pow ?_
      have : 2 ^ 8 ≤ 2 ^ i := Nat.pow_le_pow_right (by decide) (by omega)
      omega
    simp [hzero, show ¬24 + i < 32 by omega]

theorem filter_type_tagged {type : BitVec 32} (ht : type.toNat ≤ 255) :
    filter_type (type ||| PTYPE_TAG_DONTCOPY) = type := by
  refine BitVec.eq_of_toNat_eq ?_
  have hand : (type.toNat ||| 0x10000) &&& 0xff = type.toNat := by
    rw [show (0xff : ℕ) = 2 ^ 8 - 1 from rfl, Nat.and_two_pow_sub_one_eq_mod,
      Nat.or_mod_two_pow]
    simpa using by omega
  simpa [filter_type, PTYPE_TAG_DONTCOPY] using hand

/-! ## The wire format -/

/-- A message to another harbor, within the limits of its fields. -/
structure RemoteMessage where
  source : BitVec 32
  destination : BitVec 32
  type : BitVec 32
  session : BitVec 32
  message : List UInt8
  source_ne : source ≠ 0
  type_le : type.toNat ≤ 255
  size_le : message.length ≤ HANDLE_MASK.toNat

namespace RemoteMessage

/-- On the wire, if the name has a handle. -/
def direct (m : RemoteMessage) : List UInt8 :=
  send_remote m.message (remote_send_handle_cookie m.source m.destination m.type m.session)

/-- On the wire, if the message waited for the handle. -/
def pending (m : RemoteMessage) : List UInt8 :=
  send_package (dispatch_slot
    (push_queue m.message (remote_send_name_header m.source m.type m.session)) m.destination)

/-- What the other harbor gets: the gate takes off the length. -/
def body (m : RemoteMessage) : List UInt8 :=
  m.message ++
    header_to_message (remote_send_handle_cookie m.source m.destination m.type m.session)

theorem direct_eq (m : RemoteMessage) :
    m.direct = htonl (BitVec.ofNat 32 m.body.length) ++ m.body := by
  rw [direct, send_remote, body, List.length_append, header_to_message_length, List.append_assoc]

theorem pending_eq (m : RemoteMessage) :
    m.pending = htonl (BitVec.ofNat 32 m.body.length) ++ m.body := by
  rw [pending, send_package, dispatch_slot_push_queue, body, remote_send_name_header,
    remote_send_handle_cookie, BitVec.or_comm]

/-- The length on the wire is the length of what follows. -/
theorem length_read (m : RemoteMessage) :
    (ntohl (htonl (BitVec.ofNat 32 m.body.length))).toNat = m.body.length := by
  have hsize := m.size_le
  have hmask : HANDLE_MASK.toNat = 16777215 := rfl
  rw [ntohl_htonl, BitVec.toNat_ofNat, body, List.length_append, header_to_message_length]
  exact Nat.mod_eq_of_lt (by omega)

theorem mainloop_body (m : RemoteMessage) (id : BitVec 32) :
    mainloop_harbor id m.body = .send m.source
      ((m.destination &&& HANDLE_MASK) ||| (id <<< HANDLE_REMOTE_SHIFT))
      (m.type ||| PTYPE_TAG_DONTCOPY) m.session m.message := by
  obtain ⟨htake, hdrop⟩ := split_cookie m.message (header_to_message_length
    (remote_send_handle_cookie m.source m.destination m.type m.session))
  unfold mainloop_harbor body
  simp only [htake, hdrop, message_to_header_header_to_message]
  rw [if_neg (show ¬(remote_send_handle_cookie m.source m.destination m.type m.session).source = 0
    from m.source_ne)]
  simp only [remote_send_handle_cookie]
  rw [destination_low, destination_high m.destination m.type_le]

/-- **The wire format.** Both senders write the length and the same bytes behind it, and from
these the harbor `id` gets source, type, session, payload and the low bits of the destination. -/
theorem wire_format (m : RemoteMessage) (id : BitVec 32) :
    m.direct = m.pending ∧
      ∃ bytes destination type,
        m.direct = htonl (BitVec.ofNat 32 bytes.length) ++ bytes ∧
        (ntohl (m.direct.take 4)).toNat = bytes.length ∧
        mainloop_harbor id bytes = .send m.source destination type m.session m.message ∧
        filter_type type = m.type ∧
        destination &&& HANDLE_MASK = m.destination &&& HANDLE_MASK ∧
        destination >>> HANDLE_REMOTE_SHIFT = (id <<< HANDLE_REMOTE_SHIFT) >>> HANDLE_REMOTE_SHIFT := by
  refine ⟨m.direct_eq.trans m.pending_eq.symm, m.body, _, _, m.direct_eq, ?_, m.mainloop_body id,
    filter_type_tagged m.type_le, destination_low _ _, ?_⟩
  · rw [m.direct_eq, List.take_left' (htonl_length _)]
    exact m.length_read
  · refine BitVec.eq_of_getLsbD_eq fun i _ => ?_
    simp only [BitVec.getLsbD_ushiftRight, BitVec.getLsbD_or, BitVec.getLsbD_and,
      HANDLE_MASK_getLsbD, HANDLE_REMOTE_SHIFT]
    simp

end RemoteMessage

end DnServer.Harbor
