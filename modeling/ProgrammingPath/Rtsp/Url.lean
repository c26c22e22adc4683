import ProgrammingPath.Lib.StringPointer
import ProgrammingPath.Rtsp.Number

/-!
# Taking a URL apart

`urldecode` looks for the parts of a URL from both sides: the first `/` ends the host, the last `@` before it ends
the password and the first `:` the name of the user, so that `:` and `@` may stand in the password and
anything in the path.
-/

namespace ProgrammingPath.Rtsp

open ProgrammingPath.Lib

/-- `atoi` of a number that fits. -/
def atoi (str : List UInt8) : Int := (scanInt str).getD 0

/-! ## The decoder -/

/-- `struct URLInfo`, as far as the decoder sets it; `path` is an offset into the URL. -/
structure URLInfo where
  scheme : Mem
  host : Mem
  port : Int
  useranme : Mem
  password : Mem
  path : Option Nat

/-- What `memset` leaves. -/
def URLInfo.zero : URLInfo := ⟨.zero, .zero, 0, .zero, .zero, none⟩

/-- The sizes of the fields `prefix`, and `host`, `useranme` and `password`. -/
def prefixSize : Nat := 10

def nameSize : Nat := 30

/-- The loop that looks backwards for `@`, from `pend` down to `ptr`. -/
def backLoop (url : List UInt8) (ptr : Nat) : Nat → Nat
  | 0 => 0
  | p + 1 => if p + 1 ≤ ptr ∨ charAt url (p + 1) = 64 then p + 1 else backLoop url ptr p

/-- The loop that looks for the `:` before the port; so many bytes are left. -/
def colonLoop (url : List UInt8) : Nat → Nat → Nat
  | 0, pos => pos
  | left + 1, pos => if charAt url pos = 58 then pos else colonLoop url left (pos + 1)

/-- The user and the password, and where the host begins. -/
def URLInfo.decodeUser (info : URLInfo) (url : List UInt8) (ptr pend : Nat) : Option (URLInfo × Nat) :=
  let pnameEnd := strchr url ptr 58
  let phostBegin := backLoop url ptr pend
  -- a null pointer is before every other one
  if charAt url phostBegin = 64 ∧ pnameEnd.all (· < pend) then do
    let pnameEnd ← pnameEnd
    let useranme ← copyBetween info.useranme nameSize url ptr pnameEnd
    let password ← copyBetween info.password nameSize url (pnameEnd + 1) phostBegin
    some ({ info with useranme, password }, phostBegin + 1)
  else some (info, ptr)

/-- The host and the port. -/
def URLInfo.decodeHost (info : URLInfo) (url : List UInt8) (ptr pend : Nat) : Option URLInfo := do
  let pos := colonLoop url (pend - ptr) ptr
  let host ← copyBetween info.host nameSize url ptr pos
  let ptr := if charAt url pos = 58 then pos + 1 else pos
  if ptr < pend then some { info with host, port := atoi (url.drop ptr), path := some pend }
  else
    let scheme := fieldText info.scheme prefixSize
    let port := if scheme = text "https://" then 443 else if scheme = text "http://" then 80 else info.port
    some { info with host, port, path := some ptr }

/-- `urldecode`. -/
def urldecode (url : List UInt8) (info : URLInfo) : Option (Int × URLInfo) :=
  match indexOf (text "://") url with
  | none => some (-1, info)
  | some k => do
    let ptr := k + 3
    let scheme ← copyBetween info.scheme prefixSize url 0 ptr
    let pend := (strchr url ptr 47).getD url.length
    let (info, ptr) ← { info with scheme }.decodeUser url ptr pend
    if pend ≤ ptr then some (-1, info)
    else
      let info ← info.decodeHost url ptr pend
      some (0, info)

/-! ## URLs -/

/-- The parts of a URL; `scheme` goes up to `://`, `auth` is the name of a user and a password. -/
structure Url where
  scheme : List UInt8
  auth : Option (List UInt8 × List UInt8)
  host : List UInt8
  port : Option (List UInt8)
  path : List UInt8
  scheme_end : indexOf (text "://") scheme = some (scheme.length - 3)
  scheme_nul : 0 ∉ scheme
  user_stops : ∀ a ∈ auth, 0 ∉ a.1 ∧ 58 ∉ a.1 ∧ 47 ∉ a.1
  password_stops : ∀ a ∈ auth, 0 ∉ a.2 ∧ 47 ∉ a.2
  host_stops : 0 ∉ host ∧ 58 ∉ host ∧ 47 ∉ host ∧ 64 ∉ host
  port_digits : ∀ d ∈ port, d ≠ [] ∧ (∀ b ∈ d, isDigit b = true) ∧ decimal d < 2 ^ 31
  path_start : ∀ b ∈ path.head?, b = 47
  path_nul : 0 ∉ path

namespace Url

variable (u : Url)

/-- The user with the bytes around it. -/
def authText : List UInt8 :=
  match u.auth with
  | none => []
  | some (user, password) => user ++ 58 :: (password ++ [64])

def portText : List UInt8 :=
  match u.port with
  | none => []
  | some digits => 58 :: digits

/-- The URL. -/
def text : List UInt8 := u.scheme ++ (u.authText ++ (u.host ++ u.portText) ++ u.path)

/-- The port of the URL or of its scheme. -/
def portNumber : Int :=
  match u.port with
  | some digits => decimal digits
  | none =>
    if u.scheme = Lib.text "https://" then 443 else if u.scheme = Lib.text "http://" then 80 else 0

/-- The parts fit their fields. -/
structure Fits : Prop where
  scheme : u.scheme.length < prefixSize
  user : ∀ a ∈ u.auth, a.1.length < nameSize ∧ a.2.length < nameSize
  host : u.host.length < nameSize

/-- All parts are found again. -/
structure Recovered (info : URLInfo) : Prop where
  scheme : fieldText info.scheme prefixSize = u.scheme
  user : fieldText info.useranme nameSize = (u.auth.map Prod.fst).getD []
  password : fieldText info.password nameSize = (u.auth.map Prod.snd).getD []
  host : fieldText info.host nameSize = u.host
  port : info.port = u.portNumber
  path : ∃ p, info.path = some p ∧ u.text.drop p = u.path

end Url

/-! ## What the loops find -/

section

variable {url : List UInt8} {ptr pend p left pos q : Nat}

theorem backLoop_eq (hle : ptr ≤ p) (hpend : p ≤ pend)
    (hbehind : ∀ q, p < q → q ≤ pend → charAt url q ≠ 64) (hat : p = ptr ∨ charAt url p = 64) :
    backLoop url ptr pend = p := by
  induction pend with
  | zero =>
    rw [backLoop]
    omega
  | succ k ih =>
    rw [backLoop]
    by_cases hp : p = k + 1
    · subst hp
      rw [if_pos (hat.imp (fun h => by omega) id)]
    · have hstop : ¬(k + 1 ≤ ptr ∨ charAt url (k + 1) = 64) := by
        rintro (h | h)
        · omega
        · exact hbehind (k + 1) (by omega) le_rfl h
      rw [if_neg hstop]
      exact ih (by omega) fun q h1 h2 => hbehind q h1 (by omega)

theorem colonLoop_eq (hle : pos ≤ q) (hleft : q ≤ pos + left)
    (hbefore : ∀ r, pos ≤ r → r < q → charAt url r ≠ 58) (hat : q = pos + left ∨ charAt url q = 58) :
    colonLoop url left pos = q := by
  induction left generalizing pos with
  | zero =>
    rw [colonLoop]
    omega
  | succ left ih =>
    rw [colonLoop]
    by_cases hq : q = pos
    · subst hq
      rw [if_pos (hat.resolve_left (by omega))]
    · rw [if_neg (hbefore pos le_rfl (by omega))]
      exact ih (by omega) (by omega) (fun r h1 h2 => hbefore r (by omega) h2) (hat.imp (fun h => by omega) id)

end

/-! ## What the bytes of a URL are not -/

namespace Url

variable {u : Url}

theorem three_le_scheme (u : Url) : 3 ≤ u.scheme.length := by
  have hin : (indexOf (Lib.text "://") u.scheme).isSome = true := by rw [u.scheme_end]; rfl
  have hinfix := (indexOf_isSome_iff (by decide)).mp hin
  exact hinfix.length_le

/-- A digit is none of the separators. -/
theorem notMem_port {c : UInt8} (hc : isDigit c = false) : ∀ d ∈ u.port, c ∉ d := by
  intro d hd hmem
  rw [(u.port_digits d hd).2.1 c hmem] at hc
  cases hc

/-- What does not occur in the host does not occur in the host with its port. -/
theorem notMem_hostPort {c : UInt8} (hhost : c ∉ u.host) (hcolon : c ≠ 58) (hc : isDigit c = false) :
    c ∉ u.host ++ u.portText := by
  rw [List.mem_append, not_or]
  refine ⟨hhost, ?_⟩
  rw [portText]
  cases hport : u.port with
  | none => exact List.not_mem_nil
  | some d =>
    rw [List.mem_cons, not_or]
    exact ⟨hcolon, notMem_port hc d hport⟩

theorem slash_notMem (u : Url) : 47 ∉ u.authText ++ (u.host ++ u.portText) := by
  rw [List.mem_append, not_or]
  refine ⟨?_, notMem_hostPort u.host_stops.2.2.1 (by decide) (by decide)⟩
  rw [authText]
  cases hauth : u.auth with
  | none => exact List.not_mem_nil
  | some a =>
    obtain ⟨-, -, huser⟩ := u.user_stops a hauth
    obtain ⟨-, hpass⟩ := u.password_stops a hauth
    simp only [List.mem_append, List.mem_cons, List.not_mem_nil, or_false, not_or]
    exact ⟨huser, by decide, hpass, by decide⟩

/-- The path begins with `/`, or ends at once. -/
theorem charAt_path (u : Url) : charAt u.path 0 = 47 ∨ charAt u.path 0 = 0 := by
  have hstart := u.path_start
  cases hpath : u.path with
  | nil => exact Or.inr rfl
  | cons b path =>
    rw [hpath] at hstart
    exact Or.inl (hstart b rfl)

theorem charAt_path_ne {c : UInt8} (h47 : c ≠ 47) (h0 : c ≠ 0) : charAt u.path 0 ≠ c := by
  rintro rfl
  exact u.charAt_path.elim h47 h0

end Url

/-! ## What the steps of the decoder find -/

section

variable {u : Url} {info : URLInfo} {before : List UInt8}

theorem indexOf_text (u : Url) : indexOf (text "://") u.text = some (u.scheme.length - 3) :=
  indexOf_append_of_some u.scheme_end _

/-- The first `/` is where the path begins. -/
theorem strchr_slash (u : Url) : (strchr u.text u.scheme.length 47).getD u.text.length =
    u.scheme.length + (u.authText ++ (u.host ++ u.portText)).length := by
  have hslash := u.slash_notMem
  have hstart := u.path_start
  rw [Url.text]
  cases hpath : u.path with
  | nil => rw [List.append_nil, strchr_none hslash, Option.getD_none, List.length_append]
  | cons b path =>
    rw [hpath] at hstart
    rw [hstart b rfl, strchr_append hslash, Option.getD_some]

/-- The fields for the user and the password. -/
def Url.withAuth (u : Url) (info : URLInfo) : URLInfo :=
  match u.auth with
  | none => info
  | some (user, password) =>
    { info with useranme := info.useranme.write 0 user, password := info.password.write 0 password }

/-- Without a user there is no `@` before the path. -/
theorem decodeUser_none (hauth : u.auth = none) (info : URLInfo) :
    info.decodeUser u.text u.scheme.length (u.scheme.length + (u.host ++ u.portText).length) =
      some (info, u.scheme.length) := by
  have hat : 64 ∉ u.host ++ u.portText := u.notMem_hostPort u.host_stops.2.2.2 (by decide) (by decide)
  have htext : u.text = u.scheme ++ ((u.host ++ u.portText) ++ u.path) := by
    rw [Url.text, Url.authText, hauth, List.nil_append]
  have hne (q : Nat) (h1 : u.scheme.length ≤ q) (h2 : q ≤ u.scheme.length + (u.host ++ u.portText).length) :
      charAt u.text q ≠ 64 := by
    rw [htext]
    exact charAt_ne hat (u.charAt_path_ne (by decide) (by decide)) h1 h2
  have hback : backLoop u.text u.scheme.length (u.scheme.length + (u.host ++ u.portText).length) =
      u.scheme.length :=
    backLoop_eq le_rfl (Nat.le_add_right _ _) (fun q h1 h2 => hne q (by omega) h2) (Or.inl rfl)
  rw [URLInfo.decodeUser]
  simp only [hback]
  rw [if_neg fun h => hne _ le_rfl (Nat.le_add_right _ _) h.1]

/-- With one, the last `@` before the path ends the password. -/
theorem decodeUser_some {user password : List UInt8} (hauth : u.auth = some (user, password))
    (huser : user.length ≤ nameSize) (hpass : password.length ≤ nameSize) (info : URLInfo) :
    info.decodeUser u.text u.scheme.length
        (u.scheme.length + (u.authText ++ (u.host ++ u.portText)).length) =
      some (u.withAuth info, u.scheme.length + u.authText.length) := by
  let rest := (u.host ++ u.portText) ++ u.path
  have hat : 64 ∉ u.host ++ u.portText := u.notMem_hostPort u.host_stops.2.2.2 (by decide) (by decide)
  have hauthText : u.authText = user ++ 58 :: (password ++ [64]) := by rw [Url.authText, hauth]
  have hlen : u.authText.length = user.length + (1 + (password.length + 1)) := by
    rw [hauthText, List.length_append, List.length_cons, List.length_append, List.length_singleton]
    omega
  -- the text as seen from the user, the password, the `@` and the host
  have hfromUser : u.text = u.scheme ++ (user ++ 58 :: (password ++ 64 :: rest)) := by
    rw [Url.text, hauthText]
    simp only [List.append_assoc, List.cons_append, List.nil_append, rest]
  have hfromPass : u.text = (u.scheme ++ (user ++ [58])) ++ (password ++ 64 :: rest) := by
    rw [hfromUser]
    simp only [List.append_assoc, List.cons_append, List.nil_append]
  have hfromAt : u.text = (u.scheme ++ (user ++ 58 :: password)) ++ 64 :: rest := by
    rw [hfromUser]
    simp only [List.append_assoc, List.cons_append]
  have hfromHost : u.text = (u.scheme ++ u.authText) ++ ((u.host ++ u.portText) ++ u.path) := by
    simp only [Url.text, List.append_assoc]
  have hcolon : strchr u.text u.scheme.length 58 = some (u.scheme.length + user.length) := by
    rw [hfromUser]
    exact strchr_append (u.user_stops _ hauth).2.1 _
  have hback : backLoop u.text u.scheme.length
      (u.scheme.length + (u.authText ++ (u.host ++ u.portText)).length) =
        u.scheme.length + (user.length + (1 + password.length)) := by
    rw [List.length_append, hlen]
    apply backLoop_eq (by omega) (by omega)
    · intro q h1 h2
      rw [hfromHost]
      apply charAt_ne hat (u.charAt_path_ne (by decide) (by decide))
      · rw [List.length_append, hlen]
        omega
      · rw [List.length_append, hlen]
        omega
    · right
      rw [hfromAt, show u.scheme.length + (user.length + (1 + password.length)) =
        (u.scheme ++ (user ++ 58 :: password)).length by
          rw [List.length_append, List.length_append, List.length_cons]; omega, charAt_length]
      rfl
  have hchar : charAt u.text (u.scheme.length + (user.length + (1 + password.length))) = 64 := by
    rw [hfromAt, show u.scheme.length + (user.length + (1 + password.length)) =
      (u.scheme ++ (user ++ 58 :: password)).length by
        rw [List.length_append, List.length_append, List.length_cons]; omega, charAt_length]
    rfl
  have hcopyUser : copyBetween info.useranme nameSize u.text u.scheme.length (u.scheme.length + user.length) =
      some (info.useranme.write 0 user) := by
    rw [hfromUser]
    exact copyBetween_eq _ huser _
  have hcopyPass : copyBetween info.password nameSize u.text (u.scheme.length + user.length + 1)
      (u.scheme.length + (user.length + (1 + password.length))) = some (info.password.write 0 password) := by
    have hcopy := copyBetween_eq (a := u.scheme ++ (user ++ [58])) info.password hpass (64 :: rest)
    rw [← hfromPass, List.length_append, List.length_append, List.length_singleton] at hcopy
    rwa [show u.scheme.length + user.length + 1 = u.scheme.length + (user.length + 1) by omega,
      show u.scheme.length + (user.length + (1 + password.length)) =
        u.scheme.length + (user.length + 1) + password.length by omega]
  have hbefore : u.scheme.length + user.length <
      u.scheme.length + (u.authText ++ (u.host ++ u.portText)).length := by
    rw [List.length_append, hlen]
    omega
  rw [URLInfo.decodeUser]
  simp only [hback, hcolon, Option.all_some, decide_eq_true_eq]
  rw [if_pos ⟨hchar, hbefore⟩]
  simp only [Option.bind_eq_bind, Option.bind_some, hcopyUser, hcopyPass]
  rw [Url.withAuth, hauth, hlen]
  simp only
  congr 2

theorem decodeUser_eq (hfit : u.Fits) (info : URLInfo) :
    info.decodeUser u.text u.scheme.length
        (u.scheme.length + (u.authText ++ (u.host ++ u.portText)).length) =
      some (u.withAuth info, u.scheme.length + u.authText.length) := by
  cases hauth : u.auth with
  | none =>
    have htext : u.authText = [] := by rw [Url.authText, hauth]
    rw [htext, List.nil_append, decodeUser_none hauth, Url.withAuth, hauth, List.length_nil, Nat.add_zero]
  | some a =>
    obtain ⟨huser, hpass⟩ := hfit.user a hauth
    exact decodeUser_some hauth (Nat.le_of_lt huser) (Nat.le_of_lt hpass) info

/-- The fields for the host, the port and the path. -/
def Url.withHost (u : Url) (info : URLInfo) : URLInfo :=
  { info with
    host := info.host.write 0 u.host
    port := match u.port with
      | some digits => decimal digits
      | none =>
        if fieldText info.scheme prefixSize = Lib.text "https://" then 443
        else if fieldText info.scheme prefixSize = Lib.text "http://" then 80
        else info.port
    path := some (u.scheme.length + (u.authText ++ (u.host ++ u.portText)).length) }

/-- The number of a port, whatever the path is. -/
theorem atoi_port {digits : List UInt8} (hport : u.port = some digits) : atoi (digits ++ u.path) = decimal digits := by
  obtain ⟨hne, hdigit, -⟩ := u.port_digits digits hport
  have hstart := u.path_start
  have hscan : scanInt ([] ++ (digits ++ u.path)) = some (decimal digits : Int) :=
    scanInt_digits (fun b hb => absurd hb List.not_mem_nil) hne hdigit fun b hb => by rw [hstart b hb]; rfl
  rw [List.nil_append] at hscan
  rw [atoi, hscan, Option.getD_some]

theorem decodeHost_eq (hhost : u.host.length ≤ nameSize) (info : URLInfo) :
    info.decodeHost u.text (u.scheme.length + u.authText.length)
        (u.scheme.length + (u.authText ++ (u.host ++ u.portText)).length) = some (u.withHost info) := by
  let before := u.scheme ++ u.authText
  have hbefore : before.length = u.scheme.length + u.authText.length := List.length_append
  have hfromHost : u.text = before ++ (u.host ++ (u.portText ++ u.path)) := by
    simp only [Url.text, before, List.append_assoc]
  have hend : u.scheme.length + (u.authText ++ (u.host ++ u.portText)).length =
      before.length + u.host.length + u.portText.length := by
    simp only [hbefore, List.length_append]
    omega
  rw [hend, ← hbefore]
  have hcopy : copyBetween info.host nameSize u.text before.length (before.length + u.host.length) =
      some (info.host.write 0 u.host) := by
    rw [hfromHost]
    exact copyBetween_eq _ hhost _
  have hcolon : colonLoop u.text (before.length + u.host.length + u.portText.length - before.length)
      before.length = before.length + u.host.length := by
    apply colonLoop_eq (Nat.le_add_right _ _) (by omega)
    · intro r h1 h2
      obtain ⟨i, rfl⟩ := Nat.exists_eq_add_of_le h1
      rw [hfromHost, charAt_append, charAt_append_left (by omega)]
      intro heq
      exact u.host_stops.2.1 (heq ▸ charAt_mem (by omega))
    · cases hport : u.port with
      | none =>
        left
        rw [Url.portText, hport, List.length_nil]
        omega
      | some digits =>
        right
        rw [hfromHost, charAt_append, charAt_length, Url.portText, hport]
        rfl
  have hchar : charAt u.text (before.length + u.host.length) = charAt (u.portText ++ u.path) 0 := by
    rw [hfromHost, charAt_append, charAt_length]
  rw [URLInfo.decodeHost]
  simp only [hcolon, hcopy, hchar, Option.bind_eq_bind, Option.bind_some]
  cases hport : u.port with
  | none =>
    have hpath : charAt u.path 0 ≠ 58 := u.charAt_path_ne (by decide) (by decide)
    have htext : u.portText = [] := by rw [Url.portText, hport]
    rw [htext, List.nil_append, if_neg hpath, List.length_nil, if_neg (by omega), Url.withHost, hport, hend, htext]
    rfl
  | some digits =>
    obtain ⟨hne, -, -⟩ := u.port_digits digits hport
    have hpos : 0 < digits.length := List.length_pos_iff.mpr hne
    have htext : u.portText = 58 :: digits := by rw [Url.portText, hport]
    have hcond : charAt (58 :: digits ++ u.path) 0 = 58 := rfl
    have hdrop : u.text.drop (before.length + u.host.length + 1) = digits ++ u.path := by
      have hfromPort : u.text = (before ++ (u.host ++ [58])) ++ (digits ++ u.path) := by
        rw [hfromHost, htext]
        simp only [List.append_assoc, List.cons_append, List.nil_append]
      rw [hfromPort, List.drop_left']
      simp only [List.length_append, List.length_singleton, Nat.add_assoc]
    rw [htext, if_pos hcond, List.length_cons, if_pos (by omega), hdrop, atoi_port hport, Url.withHost, hport, hend,
      htext, List.length_cons]

/-! ## All of it -/

/-- The fields for what is in front of the host. -/
def Url.withFront (u : Url) (info : URLInfo) : URLInfo :=
  u.withAuth { info with scheme := info.scheme.write 0 u.scheme }

theorem urldecode_front (hfit : u.Fits) (info : URLInfo) :
    urldecode u.text info =
      if u.host ++ u.portText = [] then some (-1, u.withFront info)
      else ((u.withFront info).decodeHost u.text (u.scheme.length + u.authText.length)
        (u.scheme.length + (u.authText ++ (u.host ++ u.portText)).length)).bind fun info => some (0, info) := by
  have hthree := u.three_le_scheme
  have hscheme : copyBetween info.scheme prefixSize u.text 0 u.scheme.length =
      some (info.scheme.write 0 u.scheme) := by
    have hcopy := copyBetween_eq (a := []) info.scheme (Nat.le_of_lt hfit.scheme)
      (u.authText ++ (u.host ++ u.portText) ++ u.path)
    rwa [List.nil_append, List.length_nil, Nat.zero_add] at hcopy
  rw [urldecode, indexOf_text]
  simp only [Nat.sub_add_cancel hthree, hscheme, strchr_slash, Option.bind_eq_bind, Option.bind_some,
    decodeUser_eq hfit]
  by_cases hempty : u.host ++ u.portText = []
  · rw [if_pos hempty, hempty, List.append_nil, if_pos le_rfl, Url.withFront]
  · have hpos := List.length_pos_iff.mpr hempty
    rw [if_neg hempty, if_neg (by simp only [List.length_append] at hpos ⊢; omega), Url.withFront]

theorem hostPort_eq_nil_iff : u.host ++ u.portText = [] ↔ ¬(u.host ≠ [] ∨ u.port.isSome) := by
  rw [List.append_eq_nil_iff, Url.portText]
  cases u.port with
  | none => simp
  | some digits => simp

/-- Each part is copied to its field. -/
theorem urldecode_eq (hfit : u.Fits) (info : URLInfo) (hplace : u.host ≠ [] ∨ u.port.isSome) :
    urldecode u.text info = some (0, u.withHost (u.withFront info)) := by
  rw [urldecode_front hfit, if_neg fun h => hostPort_eq_nil_iff.mp h hplace,
    decodeHost_eq (Nat.le_of_lt hfit.host), Option.bind_some]

/-- In fields that were clear these are the parts. -/
theorem recovered_withHost (hfit : u.Fits) : u.Recovered (u.withHost (u.withFront .zero)) := by
  have hscheme : fieldText (Mem.zero.write 0 u.scheme) prefixSize = u.scheme :=
    fieldText_write u.scheme_nul (Nat.le_of_lt hfit.scheme)
  have hfront : (u.withFront .zero).scheme = Mem.zero.write 0 u.scheme := by
    rw [Url.withFront, Url.withAuth]
    cases u.auth with
    | none => rfl
    | some a => rfl
  have hport : (u.withFront .zero).port = 0 := by
    rw [Url.withFront, Url.withAuth]
    cases u.auth with
    | none => rfl
    | some a => rfl
  refine ⟨?_, ?_, ?_, ?_, ?_, ?_⟩
  · rw [Url.withHost, hfront, hscheme]
  · show fieldText (u.withFront .zero).useranme nameSize = _
    rw [Url.withFront, Url.withAuth]
    cases hauth : u.auth with
    | none => exact fieldText_zero
    | some a => exact fieldText_write (u.user_stops a hauth).1 (Nat.le_of_lt (hfit.user a hauth).1)
  · show fieldText (u.withFront .zero).password nameSize = _
    rw [Url.withFront, Url.withAuth]
    cases hauth : u.auth with
    | none => exact fieldText_zero
    | some a => exact fieldText_write (u.password_stops a hauth).1 (Nat.le_of_lt (hfit.user a hauth).2)
  · have hhost : (u.withFront .zero).host = .zero := by
      rw [Url.withFront, Url.withAuth]
      cases u.auth with
      | none => rfl
      | some a => rfl
    show fieldText ((u.withFront .zero).host.write 0 u.host) nameSize = _
    rw [hhost, fieldText_write u.host_stops.1 (Nat.le_of_lt hfit.host)]
  · rw [Url.withHost, hfront, hscheme, hport, Url.portNumber]
  · refine ⟨_, rfl, ?_⟩
    rw [Url.text, ← List.append_assoc u.scheme, List.drop_left']
    rw [List.length_append]

/-- A URL with `@` in the password and a port. -/
def fullUrl : Url where
  scheme := text "rtsp://"
  auth := some (text "admin", text "ad:min@11")
  host := text "192.168.0.150"
  port := some (text "554")
  path := text "/path1"
  scheme_end := by decide
  scheme_nul := by decide
  user_stops := by decide
  password_stops := by decide
  host_stops := by decide
  port_digits := by decide +kernel
  path_start := by decide +kernel
  path_nul := by decide +kernel

theorem fullUrl_fits : fullUrl.Fits := ⟨by decide, by decide, by decide⟩

/-- A URL with neither host nor port. -/
def placelessUrl : Url where
  scheme := text "rtsp://"
  auth := none
  host := []
  port := none
  path := text "/path1"
  scheme_end := by decide
  scheme_nul := by decide
  user_stops := by decide
  password_stops := by decide
  host_stops := by decide
  port_digits := by decide +kernel
  path_start := by decide +kernel
  path_nul := by decide +kernel

theorem placelessUrl_fits : placelessUrl.Fits := ⟨by decide, by decide, by decide⟩

end

end ProgrammingPath.Rtsp
