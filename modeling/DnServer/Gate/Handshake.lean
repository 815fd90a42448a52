import DnServer.Gate.Frames
import DnServer.Lib.CString

/-!
# The WebSocket handshake

`websocket.c` looks for the headers of a handshake in the first packet of a
connection. A value is copied from behind `": "` up to the next carriage return, or
as far as the buffer goes; the end of the packet does not stop it. The key of the
client gets the GUID of the protocol behind it, in its own buffer, and the answer
carries the SHA-1 digest of both in base64. The digest function is a parameter.

* `get_header_value_eq_ok`: a value is copied without a fault just when it ends in the
  packet and in its buffer.
* `handshake_safe_iff`: header by header, in the order in which they are looked at.
-/

namespace DnServer.Gate

open DnServer.Lib

namespace Handshake

/-- What goes wrong: a read behind the copy of the packet, a write behind a buffer, or the
assertion. -/
inductive HeaderFault
  | overread
  | overflow
  | assertion
  deriving DecidableEq, Repr

/-! ## The headers -/

/-- The loop that copies the value to `dst`; there is room for so many bytes. -/
def copy_value : ℕ → List UInt8 → Except HeaderFault (List UInt8)
  | 0, _ => .error .assertion
  | _ + 1, [] => .error .overread
  | room + 1, b :: src => if b = 13 then .ok [] else (copy_value room src).map (b :: ·)

/-- Where the value of a header starts in the copy of the packet. -/
def value_start (data key : List UInt8) : Option ℕ := do
  let start ← strstr (cstr data) (key ++ ascii ": ")
  let colon ← strstr ((cstr data).drop start) (ascii ": ")
  return start + colon + 2

/-- `get_header_value`: the bytes in `dst` before the NUL that ends them, `none` for -1. The
search string has 64 bytes. -/
def get_header_value (data key : List UInt8) (dstlen : ℕ) :
    Except HeaderFault (Option (List UInt8)) :=
  if 64 < key.length + 3 then .error .overflow
  else
    match value_start data key with
    | none => .ok none
    | some start => (copy_value (dstlen - 1) ((data ++ [0]).drop start)).map some

/-- `is_websocket_header`. -/
def is_websocket_header (data : List UInt8) : Except HeaderFault Bool := do
  match ← get_header_value data (ascii "Connection") 512 with
  | none => return false
  | some value =>
    if (strstr (cstr value) (ascii "Upgrade")).isSome then
      match ← get_header_value data (ascii "Upgrade") 512 with
      | none => return false
      | some value => return (strcasestr (cstr value) (ascii "WebSocket")).isSome
    else return false

/-! ## The answer -/

def BASE64_CHARS : List UInt8 :=
  ascii "ABCDEFGHIJKLMNOPQRSTUVWXYZabcdefghijklmnopqrstuvwxyz0123456789+/"

/-- `BASE64_CHARS[v % 64]`. -/
def base64_char (v : ℕ) : UInt8 := BASE64_CHARS.getD (v % 64) 0

/-- `_base64_encode_triple`. -/
def base64_encode_triple (a b c : UInt8) : List UInt8 :=
  let v := (a.toNat * 256 + b.toNat) * 256 + c.toNat
  [base64_char (v / 64 / 64 / 64), base64_char (v / 64 / 64), base64_char (v / 64), base64_char v]

/-- The loop of `base64_encode` and what comes behind it. -/
def base64 : List UInt8 → List UInt8
  | a :: b :: c :: source => base64_encode_triple a b c ++ base64 source
  | [a, b] => (base64_encode_triple a b 0).set 3 61
  | [a] => ((base64_encode_triple a 0 0).set 3 61).set 2 61
  | [] => []

/-- `base64_encode`; a target that is too small stays as it is. -/
def base64_encode (source target : List UInt8) (targetlen : ℕ) : List UInt8 :=
  if (source.length + 2) / 3 * 4 > targetlen - 1 then target else base64 source

/-- `sha.Message_Digest`. -/
abbrev Digest := Fin 5 → BitVec 32

/-- The bytes that are set of `key_sha1`. -/
def key_sha1 (d : Digest) : List UInt8 :=
  (List.finRange 5).flatMap fun i =>
    (List.range 4).map fun j => UInt8.ofNat ((d i <<< (8 * j)) >>> 24).toNat

def GUID : List UInt8 := ascii "258EAFA5-E914-47DA-95CA-C5AB0DC85B11"

/-- The text of the answer. -/
def response (upgrade accept : List UInt8) : List UInt8 :=
  ascii "HTTP/1.1 101 Switching Protocols\r\nUpgrade: " ++ upgrade ++
    ascii "\r\nConnection: Upgrade\r\nSec-WebSocket-Accept: " ++ accept ++ ascii "\r\n\r\n"

/-- `generate_websocket_resp`: the text in `dest`, `none` for `NULL`. `key` has 256 bytes and
`key_sha1` 128, of which the last 108 are 0. -/
def generate_websocket_resp (sha1 : List UInt8 → Digest) (req : List UInt8) (destlen : ℕ) :
    Except HeaderFault (Option (List UInt8)) := do
  let upgrade ← get_header_value req (ascii "Upgrade") 64
  let key ← get_header_value req (ascii "Sec-WebSocket-Key") 256
  let upgrade := cstr (upgrade.getD [])
  let key := cstr (key.getD [])
  if key = [] then
    return none
  else if 256 < key.length + GUID.length + 1 then
    throw .overflow
  else
    let digest := key_sha1 (sha1 (key ++ GUID))
    let accept := base64_encode (cstr (digest ++ List.replicate 108 0)) [] 128
    return some ((response upgrade accept).take (destlen - 1))

/-- What `mread_pull` does with the first packet; `none` when it is no handshake. -/
def handshake (sha1 : List UInt8 → Digest) (data : List UInt8) :
    Except HeaderFault (Option (Option (List UInt8))) := do
  if ← is_websocket_header data then
    return some (← generate_websocket_resp sha1 data 1024)
  else
    return none

/-! ## Values -/

variable {data key src v : List UInt8} {room dstlen : ℕ}

/-- The value of a header ends in the packet, and in the room of its buffer. -/
def Ends (data key : List UInt8) (dstlen : ℕ) : Prop :=
  ∀ start, value_start data key = some start → ∃ i, i + 1 < dstlen ∧ data[start + i]? = some 13

/-- The bytes of a value. -/
def value (data key : List UInt8) : Option (List UInt8) :=
  (value_start data key).map fun start => (data.drop start).takeWhile (· ≠ 13)

/-- The copy ends at the first carriage return, if there is one in its room. -/
theorem copy_value_eq_ok :
    copy_value room src = .ok v ↔ v = src.takeWhile (· ≠ 13) ∧ v.length < room ∧ 13 ∈ src := by
  induction room generalizing src v with
  | zero =>
    rw [copy_value]
    exact iff_of_false (fun h => by cases h) fun h => absurd h.2.1 (Nat.not_lt_zero _)
  | succ room ih =>
    cases src with
    | nil =>
      rw [copy_value]
      exact iff_of_false (fun h => by cases h) fun h => absurd h.2.2 List.not_mem_nil
    | cons b src =>
      rw [copy_value]
      by_cases hb : b = 13
      · rw [if_pos hb, List.takeWhile_cons_of_neg (by simpa using hb)]
        constructor
        · rintro ⟨⟩
          exact ⟨rfl, Nat.succ_pos room, hb ▸ List.mem_cons_self⟩
        · rintro ⟨rfl, -, -⟩
          rfl
      · rw [if_neg hb, List.takeWhile_cons_of_pos (by simpa using hb), List.mem_cons,
          or_iff_right (Ne.symm hb)]
        constructor
        · intro h
          cases hcopy : copy_value room src with
          | error e =>
            rw [hcopy] at h
            cases h
          | ok v' =>
            rw [hcopy] at h
            cases h
            obtain ⟨rfl, hlen, hmem⟩ := ih.mp hcopy
            exact ⟨rfl, Nat.succ_lt_succ hlen, hmem⟩
        · rintro ⟨rfl, hlen, hmem⟩
          rw [ih.mpr ⟨rfl, Nat.lt_of_succ_lt_succ hlen, hmem⟩]
          rfl

/-- A value starts in the packet. -/
theorem value_start_le {start : ℕ} (h : value_start data key = some start) :
    start ≤ data.length := by
  obtain ⟨i, -, hrest⟩ := Option.bind_eq_some_iff.mp h
  obtain ⟨colon, hcolon, hsum⟩ := Option.bind_eq_some_iff.mp hrest
  obtain rfl := Option.some.inj hsum
  have hlen := (strstr_eq_some hcolon).length_le
  have htwo : (ascii ": ").length = 2 := rfl
  have hle := cstr_length_le data
  rw [htwo, List.length_drop, List.length_drop] at hlen
  omega

theorem ends_iff {start : ℕ} (h : value_start data key = some start) :
    Ends data key dstlen ↔
      13 ∈ data.drop start ∧ ((data.drop start).takeWhile (· ≠ 13)).length < dstlen - 1 := by
  rw [← exists_lt_getElem?_iff]
  constructor
  · intro hends
    obtain ⟨i, hi, hbyte⟩ := hends start h
    exact ⟨i, by omega, by rw [List.getElem?_drop]; exact hbyte⟩
  · rintro ⟨i, hi, hbyte⟩ start' h'
    rw [h] at h'
    obtain rfl := Option.some.inj h'
    exact ⟨i, by omega, by rw [← List.getElem?_drop]; exact hbyte⟩

/-- **One header.** It is read without a fault just when its value ends in the packet and in the
room of the buffer. -/
theorem get_header_value_eq_ok {r : Option (List UInt8)} (hkey : key.length ≤ 61) :
    get_header_value data key dstlen = .ok r ↔ Ends data key dstlen ∧ r = value data key := by
  rw [get_header_value, if_neg (by omega)]
  cases hstart : value_start data key with
  | none =>
    rw [value, hstart]
    constructor
    · rintro ⟨⟩
      refine ⟨fun start h => ?_, rfl⟩
      rw [hstart] at h
      cases h
    · rintro ⟨-, rfl⟩
      rfl
  | some start =>
    have hdrop : (data ++ [0]).drop start = data.drop start ++ [0] :=
      List.drop_append_of_le_length (value_start_le hstart)
    have hmem : 13 ∈ data.drop start ++ [(0 : UInt8)] ↔ 13 ∈ data.drop start := by
      rw [List.mem_append, List.mem_singleton, or_iff_left (by decide)]
    -- the NUL behind the packet does not matter for a value that ends
    have hvalue : 13 ∈ data.drop start → (data.drop start ++ [(0 : UInt8)]).takeWhile (· ≠ 13) =
        (data.drop start).takeWhile (· ≠ 13) := fun h => by
      obtain ⟨i, hi, hbyte⟩ := List.mem_iff_getElem.mp h
      have hlt := (exists_lt_getElem?_iff.mp ⟨i, hi, List.getElem?_eq_some_iff.mpr ⟨hi, hbyte⟩⟩).2
      rw [List.takeWhile_append, if_neg hlt.ne]
    rw [ends_iff hstart, value, hstart]
    show (copy_value (dstlen - 1) ((data ++ [0]).drop start)).map some = .ok r ↔ _ ∧ r = some _
    rw [hdrop]
    constructor
    · intro h
      cases hcopy : copy_value (dstlen - 1) (data.drop start ++ [0]) with
      | error e =>
        rw [hcopy] at h
        cases h
      | ok v =>
        rw [hcopy] at h
        cases h
        obtain ⟨rfl, hlen, hin⟩ := copy_value_eq_ok.mp hcopy
        rw [hvalue (hmem.mp hin)] at hlen ⊢
        exact ⟨⟨hmem.mp hin, hlen⟩, rfl⟩
    · rintro ⟨⟨hin, hlen⟩, rfl⟩
      rw [copy_value_eq_ok.mpr ⟨(hvalue hin).symm, hlen, hmem.mpr hin⟩]
      rfl

/-! ## Safety -/

/-- The packet asks for another protocol. -/
def Upgrades (data : List UInt8) : Prop :=
  ∃ v, value data (ascii "Connection") = some v ∧ (strstr (cstr v) (ascii "Upgrade")).isSome

/-- The packet asks for the WebSocket protocol. -/
def AsksWebSocket (data : List UInt8) : Prop :=
  Upgrades data ∧
    ∃ v, value data (ascii "Upgrade") = some v ∧ (strcasestr (cstr v) (ascii "WebSocket")).isSome

/-- A header with its value, or a fault. -/
theorem get_header_value_cases (data : List UInt8) {key : List UInt8} (dstlen : ℕ)
    (hkey : key.length ≤ 61) :
    Ends data key dstlen ∧ get_header_value data key dstlen = .ok (value data key) ∨
      ¬ Ends data key dstlen ∧ ∃ e, get_header_value data key dstlen = .error e := by
  by_cases hends : Ends data key dstlen
  · exact .inl ⟨hends, (get_header_value_eq_ok hkey).mpr ⟨hends, rfl⟩⟩
  · refine .inr ⟨hends, ?_⟩
    cases hget : get_header_value data key dstlen with
    | error e => exact ⟨e, rfl⟩
    | ok r => exact absurd ((get_header_value_eq_ok hkey).mp hget).1 hends

/-- What `is_websocket_header` looks at. -/
def HeaderEnds (data : List UInt8) : Prop :=
  Ends data (ascii "Connection") 512 ∧ (Upgrades data → Ends data (ascii "Upgrade") 512)

/-- What `generate_websocket_resp` looks at. -/
structure AnswerEnds (data : List UInt8) : Prop where
  upgrade : Ends data (ascii "Upgrade") 64
  key : Ends data (ascii "Sec-WebSocket-Key") 256
  room : ∀ v, value data (ascii "Sec-WebSocket-Key") = some v → (cstr v).length ≤ 219

theorem is_websocket_header_cases (data : List UInt8) :
    (HeaderEnds data ∧ ∃ r, is_websocket_header data = .ok r ∧ (r = true ↔ AsksWebSocket data)) ∨
      (¬ HeaderEnds data ∧ ∃ e, is_websocket_header data = .error e) := by
  unfold is_websocket_header
  rcases get_header_value_cases data 512 (show (ascii "Connection").length ≤ 61 by decide) with
    ⟨hends, hget⟩ | ⟨hnot, e, hget⟩
  · rw [hget]
    cases hv : value data (ascii "Connection") with
    | none =>
      have hup : ¬ Upgrades data := fun ⟨v, hsome, _⟩ => by
        rw [hv] at hsome
        cases hsome
      exact .inl ⟨⟨hends, fun h => absurd h hup⟩, false, rfl, by simp [AsksWebSocket, hup]⟩
    | some v =>
      have hup : Upgrades data ↔ (strstr (cstr v) (ascii "Upgrade")).isSome := by
        constructor
        · rintro ⟨v', hsome, hin⟩
          rw [hv] at hsome
          obtain rfl := Option.some.inj hsome
          exact hin
        · exact fun hin => ⟨v, hv, hin⟩
      simp only [bind, Except.bind]
      by_cases hin : (strstr (cstr v) (ascii "Upgrade")).isSome
      · rw [if_pos hin]
        have hyes : Upgrades data := hup.mpr hin
        rcases get_header_value_cases data 512 (show (ascii "Upgrade").length ≤ 61 by decide) with
          ⟨hends', hget'⟩ | ⟨hnot, e, hget'⟩
        · rw [hget']
          cases hv' : value data (ascii "Upgrade") with
          | none =>
            refine .inl ⟨⟨hends, fun _ => hends'⟩, false, rfl, ?_⟩
            simp [AsksWebSocket, hv']
          | some v' =>
            refine .inl ⟨⟨hends, fun _ => hends'⟩, _, rfl, ?_⟩
            simp [AsksWebSocket, hv', hyes]
        · rw [hget']
          exact .inr ⟨fun h => hnot (h.2 hyes), e, rfl⟩
      · rw [if_neg hin]
        have hno : ¬ Upgrades data := fun h => hin (hup.mp h)
        exact .inl ⟨⟨hends, fun h => absurd h hno⟩, false, rfl, by simp [AsksWebSocket, hno]⟩
  · rw [hget]
    exact .inr ⟨fun h => hnot h.1, e, rfl⟩

/-- The answer to a packet whose headers can be read. -/
def answer (sha1 : List UInt8 → Digest) (data : List UInt8) (destlen : ℕ) : Option (List UInt8) :=
  let upgrade := cstr ((value data (ascii "Upgrade")).getD [])
  let key := cstr ((value data (ascii "Sec-WebSocket-Key")).getD [])
  if key = [] then none
  else
    let digest := key_sha1 (sha1 (key ++ GUID))
    let accept := base64_encode (cstr (digest ++ List.replicate 108 0)) [] 128
    some ((response upgrade accept).take (destlen - 1))

theorem generate_cases (sha1 : List UInt8 → Digest) (data : List UInt8) (destlen : ℕ) :
    (AnswerEnds data ∧ generate_websocket_resp sha1 data destlen = .ok (answer sha1 data destlen)) ∨
      (¬ AnswerEnds data ∧ ∃ e, generate_websocket_resp sha1 data destlen = .error e) := by
  unfold generate_websocket_resp answer
  rcases get_header_value_cases data 64 (show (ascii "Upgrade").length ≤ 61 by decide) with
    ⟨hupgrade, hget⟩ | ⟨hnot, e, hget⟩
  · rw [hget]
    rcases get_header_value_cases data 256 (show (ascii "Sec-WebSocket-Key").length ≤ 61 by decide)
      with ⟨hkey, hget'⟩ | ⟨hnot, e, hget'⟩
    · rw [hget']
      simp only [bind, Except.bind]
      have hguid : GUID.length = 36 := by decide
      by_cases hempty : cstr ((value data (ascii "Sec-WebSocket-Key")).getD []) = []
      · rw [if_pos hempty, if_pos hempty]
        refine .inl ⟨⟨hupgrade, hkey, fun v hv => ?_⟩, rfl⟩
        rw [hv, Option.getD_some] at hempty
        rw [hempty]
        exact Nat.zero_le _
      · rw [if_neg hempty, if_neg hempty]
        by_cases hlong :
            256 < (cstr ((value data (ascii "Sec-WebSocket-Key")).getD [])).length + GUID.length + 1
        · rw [if_pos hlong]
          refine .inr ⟨fun h => ?_, _, rfl⟩
          cases hv : value data (ascii "Sec-WebSocket-Key") with
          | none =>
            rw [hv] at hempty
            exact hempty rfl
          | some v =>
            have hle := h.room v hv
            rw [hv, Option.getD_some] at hlong
            omega
        · rw [if_neg hlong]
          refine .inl ⟨⟨hupgrade, hkey, fun v hv => ?_⟩, rfl⟩
          rw [hv, Option.getD_some] at hlong
          omega
    · rw [hget']
      exact .inr ⟨fun h => hnot h.key, e, rfl⟩
  · rw [hget]
    exact .inr ⟨fun h => hnot h.upgrade, e, rfl⟩

/-- The headers that are looked at end in the packet and in the room of their buffers, and the
key leaves room for the GUID. -/
def Safe (data : List UInt8) : Prop :=
  HeaderEnds data ∧ (AsksWebSocket data → AnswerEnds data)

/-- What is copied, with its NUL, fits into the buffer. -/
theorem value_fits {v : List UInt8} (h : get_header_value data key dstlen = .ok (some v)) :
    v.length + 1 < dstlen := by
  unfold get_header_value at h
  split at h
  · cases h
  · split at h
    · cases h
    · cases hcopy : copy_value (dstlen - 1) ((data ++ [0]).drop _) with
      | error e =>
        rw [hcopy] at h
        cases h
      | ok v' =>
        rw [hcopy] at h
        cases h
        have hlen := (copy_value_eq_ok.mp hcopy).2.1
        omega

/-- **The first packet.** Whatever its bytes are, it is looked at without a read behind it, a
write behind a buffer and a failing assertion just when the headers that are looked at end in the
packet and in the room of their buffers and the key is not longer than 219 bytes. -/
theorem handshake_safe_iff (sha1 : List UInt8 → Digest) (data : List UInt8) :
    ((∃ r, handshake sha1 data = .ok r) ↔ Safe data) ∧
      ∀ key dstlen v, get_header_value data key dstlen = .ok (some v) → v.length + 1 < dstlen := by
  refine ⟨?_, fun key dstlen v h => value_fits h⟩
  unfold handshake
  rcases is_websocket_header_cases data with ⟨hends, r, hheader, hasks⟩ | ⟨hnot, e, hheader⟩
  · rw [hheader]
    simp only [bind, Except.bind]
    cases r with
    | false =>
      refine iff_of_true ⟨none, rfl⟩ ⟨hends, fun h => ?_⟩
      cases hasks.mpr h
    | true =>
      have hyes := hasks.mp rfl
      rcases generate_cases sha1 data 1024 with ⟨hanswer, hgen⟩ | ⟨hnot, e, hgen⟩
      · rw [hgen]
        exact iff_of_true ⟨_, rfl⟩ ⟨hends, fun _ => hanswer⟩
      · rw [hgen]
        exact iff_of_false (fun ⟨r, h⟩ => by cases h) fun h => hnot (h.2 hyes)
  · rw [hheader]
    exact iff_of_false (fun ⟨r, h⟩ => by cases h) fun h => hnot h.1

/-- A header without a carriage return: the copy goes on behind the packet. -/
theorem unterminated_overread : ¬ ∀ (sha1 : List UInt8 → Digest) (data : List UInt8),
    ∃ r, handshake sha1 data = .ok r := by
  intro hall
  have hfault : handshake (fun _ _ => 0) (ascii "Connection: a") = .error .overread := rfl
  obtain ⟨r, hr⟩ := hall (fun _ _ => 0) (ascii "Connection: a")
  rw [hfault] at hr
  cases hr

end Handshake

end DnServer.Gate
