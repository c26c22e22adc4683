import Mathlib.Algebra.Group.Nat.Defs
import Mathlib.Data.List.GetD

/-!
# PKCS7 padding around AES-CBC (`aes/aes2.c`)

`crypt_aes_encrypt_pkcs7_ex` fills the last block up with bytes that say how many they are, a whole
block of them behind a text that ends with its block, and encrypts. `crypt_aes_pkcs7_decode_paddinglen`
finds the number again by going backward over the bytes that are equal to the last one. The scan
stops at the first byte of the buffer, so it never counts the block of an empty text to its end:
that block alone is taken for text.
-/

namespace ProgrammingPath.AesPadding

/-- The largest `int`. -/
def intMax : Nat := 2 ^ 31 - 1

/-- `AES_CBC_encrypt_buffer` and `AES_CBC_decrypt_buffer` behind `crypt_aes_encrypt_pkcs7` and
`crypt_aes_decrypt_pkcs7`: key, initial vector, data. -/
structure Cbc where
  encrypt : List UInt8 → List UInt8 → List UInt8 → List UInt8
  decrypt : List UInt8 → List UInt8 → List UInt8 → List UInt8

/-- Decryption inverts encryption on whole blocks. -/
def Cbc.Inverts (cbc : Cbc) : Prop :=
  ∀ key iv data, data.length % 16 = 0 → cbc.decrypt key iv (cbc.encrypt key iv data) = data

/-! ## The code -/

/-- `crypt_aes_pkcs7_length`; `none` where the `int` overflows. -/
def cryptAesPkcs7Length (inlen : Nat) : Option Nat :=
  let enlen := if inlen % 16 = 0 then inlen + 16 else inlen / 16 * 16 + 16
  if enlen ≤ intMax then some enlen else none

/-- The loop of `crypt_aes_pkcs7_decode_paddinglen`, from the place `tmp` on:
`while (tmp != data && *tmp == *end && (end - tmp) < *end) tmp--`. -/
def scan (data : List UInt8) (last : Nat) : Nat → Nat
  | 0 => 0
  | tmp + 1 =>
    if data.getD (tmp + 1) 0 = data.getD last 0 ∧ last - (tmp + 1) < (data.getD last 0).toNat then
      scan data last tmp
    else tmp + 1

/-- `crypt_aes_pkcs7_decode_paddinglen`. -/
def cryptAesPkcs7DecodePaddinglen (data : List UInt8) (dlen : Nat) : Nat :=
  let last := dlen - 1
  let count := (data.getD last 0).toNat
  if last - scan data last last ≠ count then 0 else count

/-- `crypt_aes_encrypt_pkcs7_ex`, where the two calls of `malloc` succeed or not: the value returned,
and what is left in `*out` and `*olen`. -/
def cryptAesEncryptPkcs7Ex (cbc : Cbc) (inCache encodes : Bool) (plain key iv : List UInt8) :
    Option (Int × Option (List UInt8 × Nat)) :=
  (cryptAesPkcs7Length plain.length).map fun enlen =>
    let pkcs := enlen - plain.length
    if inCache = false then (-1, none)
    else if encodes = false then (-1, none)
    else (0, some (cbc.encrypt key iv (plain ++ List.replicate pkcs (UInt8.ofNat pkcs)), enlen))

/-- The number of bytes added is found in what is decrypted, and the rest is the text. -/
def RoundTrips (cbc : Cbc) (plain key iv : List UInt8) : Prop :=
  ∃ out olen, cryptAesEncryptPkcs7Ex cbc true true plain key iv = some (0, some (out, olen)) ∧
    let data := cbc.decrypt key iv out
    let count := cryptAesPkcs7DecodePaddinglen data olen
    count = olen - plain.length ∧ 1 ≤ count ∧ count ≤ 16 ∧ data.take (olen - count) = plain

variable {cbc : Cbc} {plain key iv : List UInt8} {enlen : Nat}

/-! ## The length -/

theorem cryptAesPkcs7Length_eq_some {inlen : Nat} :
    cryptAesPkcs7Length inlen = some enlen ↔
      inlen < enlen ∧ enlen ≤ inlen + 16 ∧ enlen % 16 = 0 ∧ enlen ≤ intMax := by
  have hval : (if inlen % 16 = 0 then inlen + 16 else inlen / 16 * 16 + 16) = enlen ↔
      inlen < enlen ∧ enlen ≤ inlen + 16 ∧ enlen % 16 = 0 := by
    split
    · omega
    · omega
  show (if (if inlen % 16 = 0 then inlen + 16 else inlen / 16 * 16 + 16) ≤ intMax then some _ else none) =
    some enlen ↔ _
  rw [Option.ite_none_right_eq_some, Option.some.injEq, hval]
  constructor
  · rintro ⟨hle, h1, h2, h3⟩
    rw [hval.mpr ⟨h1, h2, h3⟩] at hle
    exact ⟨h1, h2, h3, hle⟩
  · rintro ⟨h1, h2, h3, hle⟩
    rw [hval.mpr ⟨h1, h2, h3⟩]
    exact ⟨hle, h1, h2, h3⟩

/-- There is a length for every text that is not within sixteen bytes of the largest `int`. -/
theorem exists_cryptAesPkcs7Length (inlen : Nat) :
    (∃ enlen, cryptAesPkcs7Length inlen = some enlen) ↔ inlen + 16 ≤ intMax := by
  constructor
  · rintro ⟨enlen, h⟩
    obtain ⟨h1, h2, h3, h4⟩ := cryptAesPkcs7Length_eq_some.mp h
    unfold intMax at h4 ⊢
    omega
  · intro h
    have hle : inlen / 16 * 16 + 16 ≤ inlen + 16 := by omega
    refine ⟨inlen / 16 * 16 + 16, cryptAesPkcs7Length_eq_some.mpr ⟨by omega, hle, by omega, ?_⟩⟩
    exact Nat.le_trans hle h

/-! ## The scan -/

/-- A text with its padding. -/
def padded (plain : List UInt8) (n : Nat) : List UInt8 := plain ++ List.replicate n (UInt8.ofNat n)

theorem getD_padded {n i : Nat} (hi : i < n) : (padded plain n).getD (plain.length + i) 0 = UInt8.ofNat n := by
  unfold padded
  rw [List.getD_append_right _ _ _ _ (Nat.le_add_right ..), Nat.add_sub_cancel_left]
  exact List.getD_replicate _ hi

theorem toNat_ofNat_count {n : Nat} (hn : n ≤ 16) : (UInt8.ofNat n).toNat = n := by
  rw [UInt8.toNat_ofNat']
  omega

/-- Over a text with its padding the scan comes to the last byte of the text; without a text it ends
at the first byte of the padding. -/
theorem scan_padded {n : Nat} (hn : n ≤ 16) {j : Nat} (hj : j < n) :
    scan (padded plain n) (plain.length + (n - 1)) (plain.length + j) = plain.length - 1 := by
  have hlast : (padded plain n).getD (plain.length + (n - 1)) 0 = UInt8.ofNat n := getD_padded (by omega)
  have hcount := toNat_ofNat_count hn
  induction j with
  | zero =>
    have hfirst : (padded plain n).getD (plain.length + 0) 0 = UInt8.ofNat n := getD_padded hj
    rw [Nat.add_zero] at hfirst ⊢
    generalize plain.length = len at hfirst hlast ⊢
    cases len with
    | zero => rfl
    | succ len =>
      -- the first byte of the padding is passed, and `n` bytes are too many at the one before it
      rw [scan, hlast, hfirst, if_pos ⟨rfl, by omega⟩, Nat.add_sub_cancel]
      cases len with
      | zero => rfl
      | succ len => rw [scan, hlast, if_neg fun h => absurd h.2 (by omega)]
  | succ j ih =>
    have hbyte : (padded plain n).getD (plain.length + j + 1) 0 = UInt8.ofNat n := getD_padded hj
    show scan _ _ (plain.length + j + 1) = _
    rw [scan, hlast, hbyte, if_pos ⟨rfl, by omega⟩, ih (by omega)]

/-- The number found: all of the padding, or nothing where there is no text before it. -/
theorem decodePaddinglen_padded {n : Nat} (h0 : 0 < n) (hn : n ≤ 16) :
    cryptAesPkcs7DecodePaddinglen (padded plain n) (plain.length + n) = if plain = [] then 0 else n := by
  have hend : plain.length + n - 1 = plain.length + (n - 1) := by omega
  have hlast : (padded plain n).getD (plain.length + (n - 1)) 0 = UInt8.ofNat n := getD_padded (by omega)
  have hscan : scan (padded plain n) (plain.length + (n - 1)) (plain.length + (n - 1)) = plain.length - 1 :=
    scan_padded hn (by omega)
  unfold cryptAesPkcs7DecodePaddinglen
  simp only [hend, hlast, hscan, toNat_ofNat_count hn]
  cases plain with
  | nil =>
    rw [if_pos rfl, if_pos]
    simp only [List.length_nil]
    omega
  | cons b plain =>
    rw [if_neg (List.cons_ne_nil b plain), if_neg]
    simp only [List.length_cons]
    omega

/-! ## The round trip -/

/-- What is returned when both calls of `malloc` succeed. -/
theorem cryptAesEncryptPkcs7Ex_eq (hlen : cryptAesPkcs7Length plain.length = some enlen) :
    cryptAesEncryptPkcs7Ex cbc true true plain key iv =
      some (0, some (cbc.encrypt key iv (padded plain (enlen - plain.length)), enlen)) := by
  unfold cryptAesEncryptPkcs7Ex
  rw [hlen]
  rfl

/-- What is decrypted is the text with its padding again. -/
theorem decrypt_encrypt (hinv : cbc.Inverts) (hlen : cryptAesPkcs7Length plain.length = some enlen) :
    cbc.decrypt key iv (cbc.encrypt key iv (padded plain (enlen - plain.length))) =
      padded plain (enlen - plain.length) := by
  obtain ⟨hlt, -, hmod, -⟩ := cryptAesPkcs7Length_eq_some.mp hlen
  apply hinv
  rw [padded, List.length_append, List.length_replicate, Nat.add_sub_cancel' (Nat.le_of_lt hlt), hmod]

/-- The number that is found in what is decrypted. -/
theorem decodePaddinglen_decrypt (hinv : cbc.Inverts)
    (hlen : cryptAesPkcs7Length plain.length = some enlen) :
    cryptAesPkcs7DecodePaddinglen
        (cbc.decrypt key iv (cbc.encrypt key iv (padded plain (enlen - plain.length)))) enlen =
      if plain = [] then 0 else enlen - plain.length := by
  obtain ⟨hlt, hle, -, -⟩ := cryptAesPkcs7Length_eq_some.mp hlen
  have hsum : plain.length + (enlen - plain.length) = enlen := by omega
  have hcount : cryptAesPkcs7DecodePaddinglen (padded plain (enlen - plain.length))
      (plain.length + (enlen - plain.length)) = if plain = [] then 0 else enlen - plain.length :=
    decodePaddinglen_padded (by omega) (by omega)
  rw [hsum] at hcount
  rw [decrypt_encrypt hinv hlen, hcount]

/-- The number of bytes added is found, and the text comes back, for every text that is not empty
and not within sixteen bytes of the largest `int`, and for no other. -/
theorem roundTrips_iff (hinv : cbc.Inverts) (plain key iv : List UInt8) :
    RoundTrips cbc plain key iv ↔ plain ≠ [] ∧ plain.length + 16 ≤ intMax := by
  constructor
  · rintro ⟨out, olen, henc, -, hone, -, -⟩
    cases hlen : cryptAesPkcs7Length plain.length with
    | none =>
      unfold cryptAesEncryptPkcs7Ex at henc
      rw [hlen] at henc
      cases henc
    | some enlen =>
      rw [cryptAesEncryptPkcs7Ex_eq hlen] at henc
      cases henc
      rw [decodePaddinglen_decrypt hinv hlen] at hone
      refine ⟨fun hnil => ?_, (exists_cryptAesPkcs7Length _).mp ⟨_, hlen⟩⟩
      rw [if_pos hnil] at hone
      omega
  · rintro ⟨hne, hle⟩
    obtain ⟨enlen, hlen⟩ := (exists_cryptAesPkcs7Length _).mpr hle
    obtain ⟨hlt, hmax, -, -⟩ := cryptAesPkcs7Length_eq_some.mp hlen
    refine ⟨_, _, cryptAesEncryptPkcs7Ex_eq hlen, ?_⟩
    have hback : enlen - (enlen - plain.length) = plain.length := by omega
    intro data count
    have hdata : data = padded plain (enlen - plain.length) := decrypt_encrypt hinv hlen
    have hcount : count = enlen - plain.length :=
      (decodePaddinglen_decrypt hinv hlen).trans (if_neg hne)
    refine ⟨hcount, by omega, by omega, ?_⟩
    rw [hcount, hback, hdata]
    exact List.take_left

/-! ## Two texts under one key -/

/-- A cipher that is known on one block: it is exchanged with its cipher text. -/
def swap (key iv text cipher : List UInt8) : Cbc :=
  let f k v data :=
    if k = key ∧ v = iv ∧ data = text then cipher
    else if k = key ∧ v = iv ∧ data = cipher then text
    else data
  ⟨f, f⟩

theorem inverts_swap (key iv text cipher : List UInt8) : (swap key iv text cipher).Inverts := by
  intro k v data _
  show (swap key iv text cipher).encrypt k v ((swap key iv text cipher).encrypt k v data) = data
  unfold swap
  grind

/-- A key, an initial vector, and the last blocks of the texts "abc" and "" under AES-128-CBC. -/
def key₀ : List UInt8 :=
  [0x2b, 0x7e, 0x15, 0x16, 0x28, 0xae, 0xd2, 0xa6, 0xab, 0xf7, 0x15, 0x88, 0x09, 0xcf, 0x4f, 0x3c]

def iv₀ : List UInt8 := [0, 1, 2, 3, 4, 5, 6, 7, 8, 9, 10, 11, 12, 13, 14, 15]

def cipherAbc : List UInt8 :=
  [0xf3, 0x27, 0xe7, 0x29, 0x0b, 0x9b, 0x92, 0x3d, 0x29, 0xd9, 0x49, 0xdb, 0x2c, 0x9f, 0x75, 0xcc]

def cipherEmpty : List UInt8 :=
  [0xc8, 0x4a, 0xf0, 0xb6, 0x13, 0x43, 0x5d, 0x5d, 0x91, 0x82, 0x80, 0x1a, 0x9b, 0xd9, 0x32, 0x0b]

theorem roundTrips_iff_abc :
    (swap key₀ iv₀ (padded [0x61, 0x62, 0x63] 13) cipherAbc).Inverts ∧
      RoundTrips (swap key₀ iv₀ (padded [0x61, 0x62, 0x63] 13) cipherAbc) [0x61, 0x62, 0x63] key₀ iv₀ :=
  ⟨inverts_swap _ _ _ _, (roundTrips_iff (inverts_swap _ _ _ _) _ _ _).mpr ⟨List.cons_ne_nil _ _, by decide⟩⟩

/-- The empty text is encrypted as one block of padding, in which no padding is found. -/
theorem not_roundTrips_nil :
    (swap key₀ iv₀ (padded [] 16) cipherEmpty).Inverts ∧
      ¬ RoundTrips (swap key₀ iv₀ (padded [] 16) cipherEmpty) [] key₀ iv₀ := by
  refine ⟨inverts_swap _ _ _ _, ?_⟩
  rintro ⟨out, olen, henc, -, hone, -, -⟩
  have hvalue : cryptAesEncryptPkcs7Ex (swap key₀ iv₀ (padded [] 16) cipherEmpty) true true [] key₀ iv₀ =
      some (0, some (cipherEmpty, 16)) := by decide +kernel
  rw [hvalue] at henc
  cases henc
  have hzero : cryptAesPkcs7DecodePaddinglen
      ((swap key₀ iv₀ (padded [] 16) cipherEmpty).decrypt key₀ iv₀ cipherEmpty) 16 = 0 := by decide +kernel
  rw [hzero] at hone
  exact absurd hone (by decide)

end ProgrammingPath.AesPadding
