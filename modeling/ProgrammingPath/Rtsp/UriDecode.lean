import ProgrammingPath.Rtsp.Url

/-!
# The other decoder of URLs

`uri_decode` goes through the part before the path once, from left to right. A `:` with nothing but digits up to the
path ends the host, the first other `:` ends the user, and each `@` ends the password as far as it is known. The two
decoders find the same parts when there is no `@` in the name of the user.
-/

namespace ProgrammingPath.Rtsp

open ProgrammingPath.Lib

/-! ## The decoder -/

/-- The local variables of `uri_decode`, each pair of pointers as one. -/
structure UriParts where
  s : Nat
  user : Option (Nat × Nat)
  pass : Option (Nat × Nat)
  hostS : Nat
  hostE : Option Nat
  port : Int

/-- The loop over the digits behind a `:`; so many bytes are left before the path. -/
def digitLoop (url : List UInt8) : Nat → Nat → Nat
  | 0, t => t
  | left + 1, t => if isDigit (charAt url t) = true then digitLoop url left (t + 1) else t

/-- One turn of the loop, except for the port at the end. -/
def UriParts.step (st : UriParts) (url : List UInt8) (pos : Nat) : UriParts :=
  if charAt url pos = 58 then
    match st.user with
    | none => { st with user := some (st.s, pos), s := pos + 1 }
    | some _ => { st with hostS := st.s, hostE := some pos, port := atoi (url.drop (pos + 1)) }
  else if charAt url pos = 64 then
    { st with pass := some ((st.pass.map Prod.fst).getD st.s, pos), s := pos + 1, hostS := pos + 1 }
  else st

/-- The loop, and where it ends. -/
def hostLoop (url : List UInt8) (pathS : Nat) : Nat → Nat → UriParts → UriParts × Nat
  | 0, pos, st => (st, pos)
  | left + 1, pos, st =>
    if charAt url pos = 0 ∨ charAt url pos = 47 then (st, pos)
    else if charAt url pos = 58 ∧ digitLoop url (pathS - (pos + 1)) (pos + 1) = pathS then
      ({ st with hostS := st.s, hostE := some pos, port := atoi (url.drop (pos + 1)) }, pos)
    else hostLoop url pathS left (pos + 1) (st.step url pos)

/-- The parameters of `uri_decode` that it writes to; `path` is an offset into the URL. -/
structure UriOut where
  scheme : Mem
  user : Mem
  pass : Mem
  host : Mem
  port : Int
  path : Nat

def UriOut.zero : UriOut := ⟨.zero, .zero, .zero, .zero, 0, 0⟩

/-- The size of `_prefix`, `_user`, `_pass` and `_host`. -/
def uriSize : Nat := 50

/-- The copy of a part that may be missing. -/
def copyPart (field : Mem) (url : List UInt8) (part : Option (Nat × Nat)) : Option Mem :=
  match part with
  | none => some field
  | some (start, stop) => copyBetween field uriSize url start stop

/-- The port of the scheme. -/
def defaultPort (url : List UInt8) (port : Int) : Int :=
  let port := if startsCI (text "rtsp") url = true then 554 else port
  if startsCI (text "https") url = true then 443
  else if startsCI (text "http") url = true then 80
  else port

/-- `uri_decode`. -/
def uriDecode (url : List UInt8) (out : UriOut) : Option (Int × UriOut) :=
  match indexOf (text "://") url with
  | none => some (-1, out)
  | some prefixE => do
    let pos := prefixE + 3 + ((url.drop (prefixE + 3)).takeWhile (· == 47)).length
    let pathS := (strchr url pos 47).getD url.length
    let (st, last) := hostLoop url pathS (pathS - pos) pos ⟨pos, none, none, pos, none, -1⟩
    let hostE := st.hostE.getD last
    let scheme ← copyBetween out.scheme uriSize url 0 prefixE
    let user ← copyPart out.user url st.user
    let pass ← copyPart out.pass url st.pass
    let host ← copyBetween out.host uriSize url st.hostS hostE
    let port := if st.port = -1 then defaultPort url st.port else st.port
    some (0, ⟨scheme, user, pass, host, port, pathS⟩)

/-! ## What the loops find -/

section

variable {url before l rest : List UInt8} {pathS left pos q t : Nat} {st : UriParts}

/-- The digits end before a byte that is none. -/
theorem digitLoop_le (hq : isDigit (charAt url q) = false) (ht : t ≤ q) : digitLoop url left t ≤ q := by
  induction left generalizing t with
  | zero => exact ht
  | succ left ih =>
    rw [digitLoop]
    by_cases heq : t = q
    · rw [heq, if_neg (by rw [hq]; exact Bool.false_ne_true)]
    · split
      · exact ih (by omega)
      · exact ht

theorem digitLoop_eq (h : ∀ i, t ≤ i → i < t + left → isDigit (charAt url i) = true) :
    digitLoop url left t = t + left := by
  induction left generalizing t with
  | zero => rfl
  | succ left ih =>
    rw [digitLoop, if_pos (h t le_rfl (by omega)), ih fun i h1 h2 => h i (by omega) (by omega)]
    omega

theorem hostLoop_step (h0 : charAt url pos ≠ 0) (h47 : charAt url pos ≠ 47)
    (hgo : charAt url pos = 58 → digitLoop url (pathS - (pos + 1)) (pos + 1) ≠ pathS) :
    hostLoop url pathS (left + 1) pos st = hostLoop url pathS left (pos + 1) (st.step url pos) := by
  rw [hostLoop, if_neg (not_or.mpr ⟨h0, h47⟩), if_neg fun h => hgo h.1 h.2]

/-- The text from the next byte on. -/
theorem next_split {b : UInt8} (hurl : url = before ++ (b :: l ++ rest)) :
    charAt url before.length = b ∧ url = (before ++ [b]) ++ (l ++ rest) ∧
      (before ++ [b]).length = before.length + 1 := by
  subst hurl
  refine ⟨?_, ?_, ?_⟩
  · rw [charAt_length]
    rfl
  · rw [List.append_assoc, List.singleton_append, List.cons_append]
  · rw [List.length_append, List.length_singleton]

/-- A part without `:`. Only an `@` in it changes anything. -/
theorem hostLoop_noColon (pathS left : Nat) (hurl : url = before ++ (l ++ rest)) (h0 : 0 ∉ l) (h47 : 47 ∉ l) (h58 : 58 ∉ l)
    (st : UriParts) :
    ∃ st', hostLoop url pathS (l.length + left) before.length st =
        hostLoop url pathS left (before.length + l.length) st' ∧
      st'.user = st.user ∧ (64 ∉ l → st' = st) ∧
      (64 ∈ l → before.length < st'.s ∧ st'.s ≤ before.length + l.length) := by
  induction l generalizing before st with
  | nil =>
    refine ⟨st, ?_, rfl, fun _ => rfl, fun h => absurd h List.not_mem_nil⟩
    rw [List.length_nil, Nat.zero_add, Nat.add_zero]
  | cons b l ih =>
    rw [List.mem_cons, not_or] at h0 h47 h58
    obtain ⟨hb, hnext, hlen⟩ := next_split hurl
    obtain ⟨st', hloop, huser, hsame, hat⟩ := ih hnext h0.2 h47.2 h58.2 (st.step url before.length)
    rw [hlen] at hloop hat
    refine ⟨st', ?_, ?_, ?_, ?_⟩
    · rw [List.length_cons, Nat.add_right_comm, hostLoop_step (hb ▸ Ne.symm h0.1) (hb ▸ Ne.symm h47.1)
        fun h => absurd (hb.symm.trans h) (Ne.symm h58.1), hloop, Nat.add_assoc, Nat.add_comm 1]
    · rw [huser, UriParts.step, if_neg (hb ▸ Ne.symm h58.1)]
      split
      · rfl
      · rfl
    · intro hnot
      rw [List.mem_cons, not_or] at hnot
      rw [hsame hnot.2, UriParts.step, if_neg (hb ▸ Ne.symm h58.1), if_neg (hb ▸ Ne.symm hnot.1)]
    · intro hmem
      rw [List.length_cons]
      by_cases hl : 64 ∈ l
      · have := hat hl
        omega
      · have hb64 : b = 64 := ((List.mem_cons.mp hmem).resolve_right hl).symm
        rw [hsame hl, UriParts.step, if_neg (hb ▸ Ne.symm h58.1), if_pos (hb.trans hb64)]
        simp only
        omega

/-- Where the password begins, as far as it is known. -/
def UriParts.passStart (st : UriParts) : Nat := (st.pass.map Prod.fst).getD st.s

/-- A part behind the first `:` and before an `@`: the user and the beginning of the password stay. -/
theorem hostLoop_password (left : Nat) (hurl : url = before ++ (l ++ 64 :: rest)) (h0 : 0 ∉ l) (h47 : 47 ∉ l)
    (hpath : before.length + l.length < pathS) {user : Nat × Nat} (huser : st.user = some user) :
    ∃ st', hostLoop url pathS (l.length + left) before.length st =
        hostLoop url pathS left (before.length + l.length) st' ∧
      st'.user = some user ∧ st'.passStart = st.passStart := by
  induction l generalizing before st with
  | nil =>
    refine ⟨st, ?_, huser, rfl⟩
    rw [List.length_nil, Nat.zero_add, Nat.add_zero]
  | cons b l ih =>
    rw [List.mem_cons, not_or] at h0 h47
    obtain ⟨hb, hnext, hlen⟩ := next_split hurl
    rw [List.length_cons] at hpath
    have hat : charAt url (before.length + 1 + l.length) = 64 := by
      rw [hnext, ← hlen, charAt_append, charAt_length]
      rfl
    -- the digits behind a `:` end at the `@` or before it
    have hgo : charAt url before.length = 58 →
        digitLoop url (pathS - (before.length + 1)) (before.length + 1) ≠ pathS := by
      intro _
      have hle : digitLoop url (pathS - (before.length + 1)) (before.length + 1) ≤ before.length + 1 + l.length :=
        digitLoop_le (by rw [hat]; rfl) (Nat.le_add_right _ _)
      omega
    have hstep : (st.step url before.length).user = some user ∧
        (st.step url before.length).passStart = st.passStart := by
      rw [UriParts.step, huser]
      split
      · exact ⟨rfl, rfl⟩
      · split
        · exact ⟨rfl, rfl⟩
        · exact ⟨huser, rfl⟩
    obtain ⟨st', hloop, huser', hstart⟩ := ih hnext h0.2 h47.2 (by rw [hlen]; omega) hstep.1
    rw [hlen] at hloop
    refine ⟨st', ?_, huser', hstart.trans hstep.2⟩
    rw [List.length_cons, Nat.add_right_comm, hostLoop_step (hb ▸ Ne.symm h0.1) (hb ▸ Ne.symm h47.1) hgo, hloop,
      Nat.add_assoc, Nat.add_comm 1]

end

/-! ## A URL with all its parts -/

section

variable {u : Url} {user password digits : List UInt8}

/-- Where the host of such a URL begins. -/
def Url.hostStart (u : Url) : Nat := u.scheme.length + u.authText.length

theorem length_authText (hauth : u.auth = some (user, password)) :
    u.authText.length = user.length + 1 + password.length + 1 := by
  rw [Url.authText, hauth, List.length_append, List.length_cons, List.length_append, List.length_singleton]
  omega

/-- The URL from the user on. -/
theorem text_eq (hauth : u.auth = some (user, password)) (hport : u.port = some digits) :
    u.text = u.scheme ++ (user ++ 58 :: (password ++ 64 :: (u.host ++ 58 :: (digits ++ u.path)))) := by
  rw [Url.text, Url.authText, hauth, Url.portText, hport]
  simp only [List.append_assoc, List.cons_append, List.nil_append]

/-- What the variables are in front of the host: `s` is where the loop takes the user to begin, `p` where the
password. -/
theorem hostLoop_auth (left : Nat) {pathS : Nat} (hauth : u.auth = some (user, password))
    (hport : u.port = some digits) (hpath : u.hostStart ≤ pathS) :
    ∃ s p hostE port, hostLoop u.text pathS (u.authText.length + left) u.scheme.length
        ⟨u.scheme.length, none, none, u.scheme.length, none, -1⟩ =
      hostLoop u.text pathS left u.hostStart ⟨u.hostStart, some (s, u.scheme.length + user.length),
        some (p, u.scheme.length + user.length + 1 + password.length), u.hostStart, hostE, port⟩ ∧
      (64 ∉ user → s = u.scheme.length ∧ p = u.scheme.length + user.length + 1) ∧
      (64 ∈ user → u.scheme.length < s ∧ s ≤ u.scheme.length + user.length) := by
  obtain ⟨huser0, huser58, huser47⟩ := u.user_stops _ hauth
  obtain ⟨hpass0, hpass47⟩ := u.password_stops _ hauth
  have hlen := length_authText hauth
  have hstart : u.hostStart = u.scheme.length + user.length + 1 + password.length + 1 := by
    rw [Url.hostStart, hlen]
    omega
  have htext := text_eq hauth hport
  let rest := u.host ++ 58 :: (digits ++ u.path)
  have hfromColon : u.text = (u.scheme ++ user) ++ 58 :: (password ++ 64 :: rest) := by
    rw [htext, List.append_assoc]
  have hfromPass : u.text = (u.scheme ++ user ++ [58]) ++ (password ++ 64 :: rest) := by
    rw [hfromColon, List.append_assoc (u.scheme ++ user), List.singleton_append]
  have hfromAt : u.text = (u.scheme ++ user ++ [58] ++ password) ++ 64 :: rest := by
    rw [hfromPass, List.append_assoc (u.scheme ++ user ++ [58])]
  have hbeforePass : (u.scheme ++ user ++ [58]).length = u.scheme.length + user.length + 1 := by
    simp only [List.length_append, List.length_singleton]
  have hbeforeAt : (u.scheme ++ user ++ [58] ++ password).length =
      u.scheme.length + user.length + 1 + password.length := by
    simp only [List.length_append, List.length_singleton]
  have hcolon : charAt u.text (u.scheme.length + user.length) = 58 := by
    rw [hfromColon, ← List.length_append, charAt_length]
    rfl
  have hat : charAt u.text (u.scheme.length + user.length + 1 + password.length) = 64 := by
    rw [hfromAt, ← hbeforeAt, charAt_length]
    rfl
  -- the user
  obtain ⟨st1, hloop1, huser1, hsame1, hat1⟩ := hostLoop_noColon pathS
    (left + 1 + password.length + 1) htext huser0 huser47 huser58
    ⟨u.scheme.length, none, none, u.scheme.length, none, -1⟩
  -- the first `:`
  have hgo2 : charAt u.text (u.scheme.length + user.length) = 58 →
      digitLoop u.text (pathS - (u.scheme.length + user.length + 1)) (u.scheme.length + user.length + 1) ≠ pathS := by
    intro _
    have hle : digitLoop u.text (pathS - (u.scheme.length + user.length + 1)) (u.scheme.length + user.length + 1) ≤
        u.scheme.length + user.length + 1 + password.length :=
      digitLoop_le (by rw [hat]; rfl) (by omega)
    omega
  have hstep2 : st1.step u.text (u.scheme.length + user.length) =
      { st1 with user := some (st1.s, u.scheme.length + user.length), s := u.scheme.length + user.length + 1 } := by
    rw [UriParts.step, if_pos hcolon, huser1]
  -- the password
  have huser2 : (st1.step u.text (u.scheme.length + user.length)).user =
      some (st1.s, u.scheme.length + user.length) := by rw [hstep2]
  have hbeforePath : (u.scheme ++ user ++ [58]).length + password.length < pathS := by
    rw [hbeforePass]
    omega
  obtain ⟨st3, hloop3, huser3, hstart3⟩ :=
    hostLoop_password (left + 1) hfromPass hpass0 hpass47 hbeforePath huser2
  rw [hbeforePass] at hloop3
  have hstep4 : st3.step u.text (u.scheme.length + user.length + 1 + password.length) =
      ⟨u.hostStart, some (st1.s, u.scheme.length + user.length),
        some (st3.passStart, u.scheme.length + user.length + 1 + password.length), u.hostStart, st3.hostE,
        st3.port⟩ := by
    rw [UriParts.step, if_neg (by rw [hat]; decide), if_pos hat, huser3, hstart]
    rfl
  refine ⟨st1.s, st3.passStart, st3.hostE, st3.port, ?_, ?_, hat1⟩
  · rw [show u.authText.length + left = user.length + (left + 1 + password.length + 1) by omega, hloop1,
      hostLoop_step (by rw [hcolon]; decide) (by rw [hcolon]; decide) hgo2,
      show left + 1 + password.length = password.length + (left + 1) by omega, hloop3,
      hostLoop_step (by rw [hat]; decide) (by rw [hat]; decide) fun h => absurd (hat.symm.trans h) (by decide),
      hstep4, hstart]
  · intro hno
    rw [hstart3, hstep2, hsame1 hno]
    exact ⟨rfl, rfl⟩

/-- The host and the port end the loop. -/
theorem hostLoop_host (hport : u.port = some digits) (st : UriParts) :
    hostLoop u.text (u.hostStart + (u.host.length + (digits.length + 1)))
        (u.host.length + (digits.length + 1)) u.hostStart st =
      ({ st with hostS := st.s, hostE := some (u.hostStart + u.host.length), port := decimal digits },
        u.hostStart + u.host.length) := by
  obtain ⟨hhost0, hhost58, hhost47, hhost64⟩ := u.host_stops
  obtain ⟨hne, hdigit, -⟩ := u.port_digits _ hport
  have hfromHost : u.text = (u.scheme ++ u.authText) ++ (u.host ++ 58 :: (digits ++ u.path)) := by
    rw [Url.text, Url.portText, hport]
    simp only [List.append_assoc, List.cons_append]
  have hfromPort : u.text = (u.scheme ++ u.authText ++ u.host ++ [58]) ++ (digits ++ u.path) := by
    rw [hfromHost]
    simp only [List.append_assoc, List.cons_append, List.nil_append]
  have hstart : (u.scheme ++ u.authText).length = u.hostStart := List.length_append
  have hbeforePort : (u.scheme ++ u.authText ++ u.host ++ [58]).length = u.hostStart + u.host.length + 1 := by
    rw [List.length_append, List.length_append, hstart, List.length_singleton]
  have hcolon : charAt u.text (u.hostStart + u.host.length) = 58 := by
    rw [hfromHost, ← hstart, charAt_append, charAt_length]
    rfl
  have hdrop : u.text.drop (u.hostStart + u.host.length + 1) = digits ++ u.path := by
    rw [hfromPort, ← hbeforePort, List.drop_left]
  have hdigits : digitLoop u.text (u.hostStart + (u.host.length + (digits.length + 1)) -
      (u.hostStart + u.host.length + 1)) (u.hostStart + u.host.length + 1) =
        u.hostStart + (u.host.length + (digits.length + 1)) := by
    rw [show u.hostStart + (u.host.length + (digits.length + 1)) - (u.hostStart + u.host.length + 1) =
      digits.length by omega, digitLoop_eq]
    · omega
    · intro i h1 h2
      obtain ⟨k, rfl⟩ := Nat.exists_eq_add_of_le h1
      rw [hfromPort, ← hbeforePort, charAt_append, charAt_append_left (by omega)]
      exact hdigit _ (charAt_mem (by omega))
  obtain ⟨st', hloop, -, hsame, -⟩ := hostLoop_noColon (u.hostStart + (u.host.length + (digits.length + 1)))
    (digits.length + 1) hfromHost hhost0 hhost47 hhost58 st
  rw [hstart, hsame hhost64] at hloop
  rw [hloop, hostLoop, if_neg (by rw [hcolon]; decide), if_pos ⟨hcolon, hdigits⟩, hdrop, atoi_port hport]

/-- No `/` is skipped behind the `://`. -/
theorem noSlash (hauth : u.auth = some (user, password)) :
    (u.text.drop u.scheme.length).takeWhile (· == 47) = [] := by
  have hslash : 47 ∉ u.authText := fun h => u.slash_notMem (List.mem_append_left _ h)
  rw [Url.authText, hauth] at hslash
  rw [Url.text, List.drop_left, Url.authText, hauth]
  cases user with
  | nil => rfl
  | cons b user =>
    have hb : (b == 47) = false := by
      rw [beq_eq_false_iff_ne]
      rintro rfl
      exact hslash List.mem_cons_self
    exact List.takeWhile_cons_of_neg (by rw [hb]; exact Bool.false_ne_true)

/-- The scheme without its `://`. -/
def Url.schemeName (u : Url) : List UInt8 := u.scheme.take (u.scheme.length - 3)

theorem schemeName_append (u : Url) : u.schemeName ++ text "://" = u.scheme := by
  have hthree := u.three_le_scheme
  have hpre := prefix_of_indexOf u.scheme_end
  have hdrop : u.scheme.drop (u.scheme.length - 3) = text "://" := by
    apply (List.IsPrefix.eq_of_length hpre _).symm
    rw [List.length_drop]
    exact (Nat.sub_sub_self hthree).symm
  rw [Url.schemeName, ← hdrop, List.take_append_drop]

/-- What the decoder copies, apart from the password, which may not fit. -/
theorem uriDecode_eq (hfit : u.Fits) (hauth : u.auth = some (user, password)) (hport : u.port = some digits) :
    ∃ s p, uriDecode u.text .zero =
      (copyBetween .zero uriSize u.text p (u.scheme.length + user.length + 1 + password.length)).bind (fun pass =>
        some (0, ⟨Mem.zero.write 0 u.schemeName, Mem.zero.write 0 (user.drop (s - u.scheme.length)), pass,
          Mem.zero.write 0 u.host, decimal digits, u.scheme.length + (u.authText ++ (u.host ++ u.portText)).length⟩)) ∧
      (64 ∉ user → s = u.scheme.length ∧ p = u.scheme.length + user.length + 1) ∧
      (64 ∈ user → u.scheme.length < s ∧ s ≤ u.scheme.length + user.length) := by
  have hthree := u.three_le_scheme
  have hlen := length_authText hauth
  have hend : u.scheme.length + (u.authText ++ (u.host ++ u.portText)).length =
      u.hostStart + (u.host.length + (digits.length + 1)) := by
    rw [Url.hostStart, Url.portText, hport, List.length_append, List.length_append, List.length_cons, Nat.add_assoc]
  have hplace : u.hostStart ≤ u.hostStart + (u.host.length + (digits.length + 1)) := Nat.le_add_right _ _
  obtain ⟨s, p, hostE, port, hloop, hno, hyes⟩ :=
    hostLoop_auth (u.host.length + (digits.length + 1)) hauth hport hplace
  rw [hostLoop_host hport] at hloop
  have hleft : u.hostStart + (u.host.length + (digits.length + 1)) - u.scheme.length =
      u.authText.length + (u.host.length + (digits.length + 1)) := by
    rw [Url.hostStart]
    omega
  have hs : u.scheme.length ≤ s ∧ s ≤ u.scheme.length + user.length := by
    by_cases hat : 64 ∈ user
    · exact ⟨Nat.le_of_lt (hyes hat).1, (hyes hat).2⟩
    · rw [(hno hat).1]
      exact ⟨le_rfl, Nat.le_add_right _ _⟩
  have hscheme : copyBetween .zero uriSize u.text 0 (u.scheme.length - 3) = some (Mem.zero.write 0 u.schemeName) := by
    have hname : u.schemeName.length = u.scheme.length - 3 := by
      rw [Url.schemeName, List.length_take, Nat.min_eq_left (Nat.sub_le _ _)]
    have hsize : u.schemeName.length ≤ uriSize := by
      have hshort := hfit.scheme
      rw [prefixSize] at hshort
      rw [hname, uriSize]
      omega
    have hcopy := copyBetween_eq (a := []) .zero hsize
      (text "://" ++ (u.authText ++ (u.host ++ u.portText) ++ u.path))
    rwa [List.nil_append, List.length_nil, Nat.zero_add, hname, ← List.append_assoc, schemeName_append] at hcopy
  have huser : copyBetween .zero uriSize u.text s (u.scheme.length + user.length) =
      some (Mem.zero.write 0 (user.drop (s - u.scheme.length))) := by
    have hsplit : u.text = (u.scheme ++ user.take (s - u.scheme.length)) ++ (user.drop (s - u.scheme.length) ++
        58 :: (password ++ 64 :: (u.host ++ 58 :: (digits ++ u.path)))) := by
      rw [text_eq hauth hport, List.append_assoc, ← List.append_assoc (user.take _), List.take_append_drop]
    have hbefore : (u.scheme ++ user.take (s - u.scheme.length)).length = s := by
      rw [List.length_append, List.length_take]
      omega
    have hpart : (user.drop (s - u.scheme.length)).length = u.scheme.length + user.length - s := by
      rw [List.length_drop]
      omega
    have hsize : (user.drop (s - u.scheme.length)).length ≤ uriSize := by
      have hshort : user.length < nameSize := (hfit.user _ hauth).1
      rw [nameSize] at hshort
      rw [hpart, uriSize]
      omega
    have hcopy := copyBetween_eq (a := u.scheme ++ user.take (s - u.scheme.length)) .zero hsize
      (58 :: (password ++ 64 :: (u.host ++ 58 :: (digits ++ u.path))))
    rwa [← hsplit, hbefore, hpart, show s + (u.scheme.length + user.length - s) = u.scheme.length + user.length by
      omega] at hcopy
  have hhost : copyBetween .zero uriSize u.text u.hostStart (u.hostStart + u.host.length) =
      some (Mem.zero.write 0 u.host) := by
    have hfromHost : u.text = (u.scheme ++ u.authText) ++ (u.host ++ (u.portText ++ u.path)) := by
      simp only [Url.text, List.append_assoc]
    have hsize : u.host.length ≤ uriSize := by
      have hshort := hfit.host
      rw [nameSize] at hshort
      rw [uriSize]
      omega
    have hcopy := copyBetween_eq (a := u.scheme ++ u.authText) .zero hsize (u.portText ++ u.path)
    rwa [← hfromHost, List.length_append] at hcopy
  have hpos : ¬((decimal digits : Int) = -1) := by omega
  refine ⟨s, p, ?_, hno, hyes⟩
  rw [uriDecode, indexOf_text]
  simp only [Nat.sub_add_cancel hthree, noSlash hauth, List.length_nil, Nat.add_zero, strchr_slash, hend, hleft, hloop,
    copyPart, UriOut.zero, hscheme, huser, Option.getD_some, hhost, Option.bind_eq_bind, Option.bind_some,
    if_neg hpos]

/-- Both decoders take the URL apart and find the same; what `urldecode` has as the scheme ends with `ends`, which the
other one leaves out. -/
def DecodersAgree (ends : List UInt8) (u : Url) : Prop :=
  ∃ info out, urldecode u.text .zero = some (0, info) ∧ uriDecode u.text .zero = some (0, out) ∧
    fieldText info.scheme prefixSize = fieldText out.scheme uriSize ++ ends ∧
    fieldText info.useranme nameSize = fieldText out.user uriSize ∧
    fieldText info.password nameSize = fieldText out.pass uriSize ∧
    fieldText info.host nameSize = fieldText out.host uriSize ∧
    info.port = out.port ∧ info.path = some out.path

end

end ProgrammingPath.Rtsp
