import DnServer.Gate.Handshake

/-!
# The accept key

`generate_websocket_resp` unpacks the digest into a `char` array and encodes as many
bytes of it as `strlen` counts: a digest with a byte 0 is cut off there.
-/

namespace DnServer.Gate

open DnServer.Lib

namespace Handshake

/-! ## The bytes of the digest -/

/-- A number in so many bytes, the highest first. -/
def bigEndianBytes : ℕ → ℕ → List UInt8
  | 0, _ => []
  | k + 1, n => UInt8.ofNat (n / 256 ^ k) :: bigEndianBytes k n

/-- The 20 bytes of the digest, the highest of each word first. -/
def digest_bytes (d : Digest) : List UInt8 :=
  (List.finRange 5).flatMap fun i => bigEndianBytes 4 (d i).toNat

/-- Byte `j` of a word, shifted to the top and down again. -/
theorem shifted_byte (x : BitVec 32) {j : ℕ} (hj : j < 4) :
    UInt8.ofNat ((x <<< (8 * j)) >>> 24).toNat = UInt8.ofNat (x.toNat / 256 ^ (3 - j)) := by
  have hlt := x.isLt
  rw [BitVec.toNat_ushiftRight, BitVec.toNat_shiftLeft, Nat.shiftRight_eq_div_pow,
    Nat.shiftLeft_eq, ← UInt8.toNat_inj, UInt8.toNat_ofNat', UInt8.toNat_ofNat']
  interval_cases j <;> norm_num <;> omega

/-- The shifts take the words apart as they should. -/
theorem key_sha1_eq (d : Digest) : key_sha1 d = digest_bytes d := by
  unfold key_sha1 digest_bytes
  refine List.flatMap_congr fun i _ => ?_
  have hfour : List.range 4 = [0, 1, 2, 3] := rfl
  rw [hfour]
  simp only [List.map_cons, List.map_nil]
  rw [shifted_byte (d i) (by decide : 0 < 4), shifted_byte (d i) (by decide : 1 < 4),
    shifted_byte (d i) (by decide : 2 < 4), shifted_byte (d i) (by decide : 3 < 4)]
  rfl

theorem digest_bytes_length (d : Digest) : (digest_bytes d).length = 20 := rfl

/-- The zeros behind the digest do not count. -/
theorem cstr_append_zeros (l : List UInt8) (n : ℕ) : cstr (l ++ List.replicate n 0) = cstr l := by
  unfold cstr
  rw [List.takeWhile_append]
  split
  · rename_i hall
    have hzeros : (List.replicate n (0 : UInt8)).takeWhile (· ≠ 0) = [] := by
      cases n with
      | zero => rfl
      | succ n => rfl
    rw [hzeros, List.append_nil]
    exact ((List.takeWhile_prefix _).eq_of_length hall).symm
  · rfl

theorem cstr_eq_self {l : List UInt8} : cstr l = l ↔ ∀ b ∈ l, b ≠ 0 := by
  rw [cstr, List.takeWhile_eq_self_iff]
  simp

/-! ## Base64 -/

/-- No character of the alphabet is the padding. -/
theorem base64_char_ne (v : ℕ) : base64_char v ≠ 61 := by
  have hall : BASE64_CHARS.all (· ≠ 61) = true := rfl
  have hlt : v % 64 < BASE64_CHARS.length := Nat.mod_lt v (by decide)
  rw [base64_char, List.getD_eq_getElem _ _ hlt]
  exact of_decide_eq_true (List.all_eq_true.mp hall _ (List.getElem_mem hlt))

theorem base64_length : ∀ l, (base64 l).length = (l.length + 2) / 3 * 4
  | a :: b :: c :: l => by
    have ih := base64_length l
    simp only [base64, base64_encode_triple, List.length_append, List.length_cons, List.length_nil]
    omega
  | [_, _] => by simp [base64, base64_encode_triple]
  | [_] => by simp [base64, base64_encode_triple]
  | [] => rfl

/-- Three bytes give four characters, and the padding says how many bytes are missing. -/
theorem base64_count : ∀ l, 3 * (base64 l).length = 4 * (l.length + (base64 l).count 61)
  | a :: b :: c :: l => by
    have ih := base64_count l
    simp only [base64, base64_encode_triple, List.length_append, List.count_append,
      List.length_cons, List.length_nil, List.count_cons_of_ne (base64_char_ne _),
      List.count_nil]
    omega
  | [a, b] => by
    simp [base64, base64_encode_triple, List.count_cons_of_ne (base64_char_ne _)]
  | [a] => by
    simp [base64, base64_encode_triple, List.count_cons_of_ne (base64_char_ne _)]
  | [] => rfl

/-- The code of a part is not the code of the whole. -/
theorem length_eq_of_base64 {l l' : List UInt8} (h : base64 l = base64 l') :
    l.length = l'.length := by
  have hl := base64_count l
  have hl' := base64_count l'
  rw [h] at hl
  omega

/-- What is encoded of a digest is the code of all its bytes just when no byte is 0. -/
theorem base64_cstr_iff (l : List UInt8) : base64 (cstr l) = base64 l ↔ ∀ b ∈ l, b ≠ 0 := by
  rw [← cstr_eq_self]
  constructor
  · intro h
    exact (List.takeWhile_prefix _).eq_of_length (length_eq_of_base64 h)
  · intro h
    rw [h]

/-! ## The answer -/

theorem response_inj {upgrade a b : List UInt8} :
    response upgrade a = response upgrade b ↔ a = b := by
  unfold response
  rw [List.append_left_inj, List.append_right_inj]

/-- The answer fits into its buffer. -/
theorem response_length {upgrade accept : List UInt8} (hupgrade : upgrade.length < 64)
    (haccept : accept.length ≤ 28) : (response upgrade accept).length ≤ 1023 := by
  have hfirst : (ascii "HTTP/1.1 101 Switching Protocols\r\nUpgrade: ").length = 43 := rfl
  have hsecond : (ascii "\r\nConnection: Upgrade\r\nSec-WebSocket-Accept: ").length = 45 := rfl
  have hlast : (ascii "\r\n\r\n").length = 4 := rfl
  simp only [response, List.length_append, hfirst, hsecond, hlast]
  omega

/-- The digest is encoded up to its first byte 0. -/
theorem encoded_digest (d : Digest) :
    base64_encode (cstr (key_sha1 d ++ List.replicate 108 0)) [] 128 =
      base64 (cstr (digest_bytes d)) := by
  have hlen := cstr_length_le (digest_bytes d)
  rw [digest_bytes_length] at hlen
  rw [key_sha1_eq, cstr_append_zeros, base64_encode, if_neg (by omega)]

/-- **The accept key.** For every request with an `Upgrade` and a key, and whatever the digest is,
the answer carries the base64 of all 20 bytes of the digest just when the key leaves room for the
GUID and no byte of the digest is 0. -/
theorem accept_all_bytes_iff (sha1 : List UInt8 → Digest) {req key : List UInt8}
    {upgrade : Option (List UInt8)}
    (hupgrade : get_header_value req (ascii "Upgrade") 64 = .ok upgrade)
    (hkey : get_header_value req (ascii "Sec-WebSocket-Key") 256 = .ok (some key))
    (hne : cstr key ≠ []) :
    generate_websocket_resp sha1 req 1024 = .ok (some (response (cstr (upgrade.getD []))
        (base64 (digest_bytes (sha1 (cstr key ++ GUID)))))) ↔
      (cstr key).length ≤ 219 ∧ ∀ b ∈ digest_bytes (sha1 (cstr key ++ GUID)), b ≠ 0 := by
  have hguid : GUID.length = 36 := rfl
  have hshort : (cstr (upgrade.getD [])).length < 64 := by
    cases upgrade with
    | none => exact Nat.succ_pos 63
    | some v =>
      have hfits := value_fits hupgrade
      have hle := cstr_length_le v
      rw [Option.getD_some]
      omega
  have hfit : ∀ l : List UInt8, l.length ≤ 20 →
      (response (cstr (upgrade.getD [])) (base64 l)).take 1023 =
        response (cstr (upgrade.getD [])) (base64 l) := fun l hl => by
    refine List.take_of_length_le (response_length hshort ?_)
    rw [base64_length]
    omega
  unfold generate_websocket_resp
  rw [hupgrade, hkey]
  simp only [bind, Except.bind, Option.getD_some]
  rw [if_neg hne, encoded_digest]
  by_cases hlong : 256 < (cstr key).length + GUID.length + 1
  · rw [if_pos hlong]
    exact iff_of_false (fun h => by cases h) fun h => by omega
  · have hlen := cstr_length_le (digest_bytes (sha1 (cstr key ++ GUID)))
    rw [digest_bytes_length] at hlen
    rw [if_neg hlong, hfit _ hlen, ← base64_cstr_iff]
    show Except.ok (some _) = Except.ok (some _) ↔ _
    rw [Except.ok.injEq, Option.some.injEq, response_inj]
    exact ⟨fun h => ⟨by omega, h⟩, fun h => h.2⟩

/-- The digest of the key `AAAAAAAAAAAAAAAAAAAADg==` ends in a byte 0. -/
def zeroDigest : Digest := ![0xda140d7b, 0x603a6a99, 0x8dfef7ba, 0xc53b1213, 0x16a36700]

/-- A handshake with that key. -/
def zeroRequest : List UInt8 :=
  ascii "Upgrade: websocket\r\nSec-WebSocket-Key: AAAAAAAAAAAAAAAAAAAADg==\r\n"

theorem zeroRequest_upgrade :
    get_header_value zeroRequest (ascii "Upgrade") 64 = .ok (some (ascii "websocket")) := by
  decide +kernel

theorem zeroRequest_key : get_header_value zeroRequest (ascii "Sec-WebSocket-Key") 256 =
    .ok (some (ascii "AAAAAAAAAAAAAAAAAAAADg==")) := by
  decide +kernel

/-- The answer lacks the last byte of the digest. -/
theorem zero_byte_cut : generate_websocket_resp (fun _ => zeroDigest) zeroRequest 1024 ≠
    .ok (some (response (ascii "websocket") (base64 (digest_bytes zeroDigest)))) := by
  decide +kernel

/-- With a digest without a byte 0 the answer is right. -/
theorem accept_all_bytes_iff_ones :
    generate_websocket_resp (fun _ _ => 0x01010101) zeroRequest 1024 =
      .ok (some (response (cstr (ascii "websocket"))
        (base64 (digest_bytes fun _ => 0x01010101)))) :=
  (accept_all_bytes_iff (fun _ _ => 0x01010101) zeroRequest_upgrade zeroRequest_key
    (by decide)).mpr ⟨by decide +kernel, by decide +kernel⟩

end Handshake

end DnServer.Gate
