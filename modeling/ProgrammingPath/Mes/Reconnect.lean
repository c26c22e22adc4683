import ProgrammingPath.Lib.Run
import ProgrammingPath.Mes.Net

/-!
# Reconnecting

No slot of `MESNetPrivate` clears a receive buffer, so bytes of an incomplete frame survive the end
of their connection. To follow them, `Traced` runs the connection with a second buffer beside each
receive buffer: for every byte, the number of the connection it was received on.

`handled_of_meets` is the result: as long as every new connection of a socket finds no head byte in
that socket's buffer, every frame handled consists of bytes of the connection it is handled on.
Bytes without a head byte are harmless: the search for a head byte skips them.
-/

namespace ProgrammingPath.Mes

open ProgrammingPath.Qt ProgrammingPath.Lib

/-- A frame that was handed to a handler: its bytes, the connection each of them was received on,
and the connection that was current. -/
structure Handled where
  sock : Sock
  frame : QByteArray
  origin : List Nat
  connection : Nat
  deriving DecidableEq, Repr

/-- All bytes of the frame were received on the connection it was handled on. -/
def Handled.Pure (h : Handled) : Prop :=
  h.origin.length = h.frame.length ∧ ∀ n ∈ h.origin, n = h.connection

instance (h : Handled) : Decidable h.Pure := inferInstanceAs (Decidable (_ ∧ _))

structure Traced where
  net : Net := {}
  /-- how many connections each socket has had -/
  connection : Sock → Nat := fun _ => 0
  /-- for each byte of a receive buffer, the connection it came from -/
  origin : Sock → List Nat := fun _ => []
  handled : List Handled := []

namespace Traced

/-- The origins of what a socket's buffer holds once `array` is appended. -/
def origin' (t : Traced) (sock : Sock) (array : QByteArray) : List Nat :=
  t.origin sock ++ List.replicate array.length (t.connection sock)

/-- The frame that a read completes, if it completes one. -/
def frame (t : Traced) (sock : Sock) (array : QByteArray) : Option Handled :=
  (Net.framePosition (t.net.buff sock ++ array)).map fun p =>
    { sock := sock
      frame := ((t.net.buff sock ++ array).drop p.1).take (p.2 - p.1)
      origin := ((t.origin' sock array).drop p.1).take (p.2 - p.1)
      connection := t.connection sock }

/-- A read: the origins are cut where `parseReadBuff` cuts the bytes. -/
def readyRead (t : Traced) (db : DB) (sock : Sock) (array : QByteArray) : Traced where
  net := (t.net.onEvent db (.readyRead sock array)).1
  connection := t.connection
  origin := fun s =>
    if s = sock then
      match Net.framePosition (t.net.buff sock ++ array) with
      | none => t.origin' sock array
      | some (_, endPosition) => (t.origin' sock array).drop endPosition
    else t.origin s
  handled := t.handled ++ (t.frame sock array).toList

/-- One event, with the database of that moment. -/
def step (t : Traced) : DB × Net.Event → Option Traced
  | (db, .readyRead sock array) => some (t.readyRead db sock array)
  | (db, .connected sock) =>
    some
      { t with
        net := (t.net.onEvent db (.connected sock)).1
        connection := fun s => if s = sock then t.connection s + 1 else t.connection s }
  | (db, e) => some { t with net := (t.net.onEvent db e).1 }

/-- The condition on a step: a new connection finds no head byte in the socket's buffer. -/
def Clean (t : Traced) : DB × Net.Event → Prop
  | (_, .connected sock) => 0x5A ∉ t.net.buff sock
  | _ => True

instance (t : Traced) : (a : DB × Net.Event) → Decidable (t.Clean a)
  | (_, .connected sock) => inferInstanceAs (Decidable (0x5A ∉ t.net.buff sock))
  | (_, .start) | (_, .close) | (_, .restart) | (_, .closed _) | (_, .error _ _)
  | (_, .regTimeOut) | (_, .startNextRequestA) | (_, .readyRead _ _) =>
    inferInstanceAs (Decidable True)

/-- Where the search of `parseReadBuff` finds the head byte. -/
def head (t : Traced) (sock : Sock) : Nat := (t.net.buff sock).findIdx (· == 0x5A)

/-- From the head byte on, a buffer holds bytes of the current connection only. -/
structure Inv (t : Traced) : Prop where
  length : ∀ s, (t.origin s).length = (t.net.buff s).length
  current : ∀ s, ∀ n ∈ (t.origin s).drop (t.head s), n = t.connection s
  handled : ∀ h ∈ t.handled, h.Pure

/-! ## The search for the head byte -/

theorem findIdx_append_le {l m : QByteArray} {p : UInt8 → Bool} :
    l.findIdx p ≤ (l ++ m).findIdx p := by
  rw [List.findIdx_append]
  split
  · exact Nat.le_refl _
  · exact Nat.le_trans List.findIdx_le_length (Nat.le_add_left _ _)

theorem framePosition_some {buff : QByteArray} {h e : Nat}
    (hp : Net.framePosition buff = some (h, e)) :
    h = buff.findIdx (· == 0x5A) ∧ h ≤ e ∧ e ≤ buff.length := by
  unfold Net.framePosition at hp
  simp only at hp
  split at hp
  · cases hp
  · split at hp
    · cases hp
    · split at hp
      · cases hp
      · simp only [Option.some.injEq, Prod.mk.injEq] at hp
        omega

/-! ## The invariant -/

variable {t : Traced} {sock : Sock} {array : QByteArray}

theorem Inv.length_origin' (hi : t.Inv) :
    (t.origin' sock array).length = (t.net.buff sock ++ array).length := by
  simp [origin', hi.length]

/-- Appending a read keeps the bytes from the head byte on current. -/
theorem Inv.current_origin' (hi : t.Inv) :
    ∀ n ∈ (t.origin' sock array).drop ((t.net.buff sock ++ array).findIdx (· == 0x5A)),
      n = t.connection sock := by
  intro n hn
  have hn : n ∈ (t.origin' sock array).drop (t.head sock) :=
    List.drop_subset_drop_left _ findIdx_append_le hn
  rw [origin', List.drop_append, List.mem_append] at hn
  rcases hn with hn | hn
  · exact hi.current sock n hn
  · exact List.eq_of_mem_replicate (List.mem_of_mem_drop hn)

/-- What a read leaves in the buffer and its origins: everything, or what follows the frame. -/
theorem readyRead_left (db : DB) : ∃ k,
    (k = 0 ∨ (t.net.buff sock ++ array).findIdx (· == 0x5A) ≤ k) ∧
    (∀ s, (t.readyRead db sock array).net.buff s =
      if s = sock then (t.net.buff sock ++ array).drop k else t.net.buff s) ∧
    (∀ s, (t.readyRead db sock array).origin s =
      if s = sock then (t.origin' sock array).drop k else t.origin s) := by
  have hbuff := fun s => @Net.buff_slotReadyRead db t.net sock s array
  cases hp : Net.framePosition (t.net.buff sock ++ array) with
  | none =>
    have hcut : Net.cutFrame (t.net.buff sock ++ array) = none := by simp [Net.cutFrame, hp]
    refine ⟨0, .inl rfl, fun s => ?_, fun s => ?_⟩
    · simp only [readyRead, Net.onEvent, hbuff, hcut, Option.map_none, Option.getD_none,
        List.drop_zero]
    · simp only [readyRead, hp, List.drop_zero]
  | some pos =>
    obtain ⟨hhead, hle, hend⟩ := framePosition_some hp
    refine ⟨pos.2, .inr (hhead ▸ hle), fun s => ?_, fun s => ?_⟩
    · simp only [readyRead, Net.onEvent, hbuff, Net.cutFrame, hp, Option.map_some,
        Option.getD_some]
    · simp only [readyRead, hp]

/-- The frame a read completes is cut out of the bytes from the head byte on. -/
theorem Inv.frame_pure (hi : t.Inv) {h : Handled} (hh : t.frame sock array = some h) : h.Pure := by
  have hlen := @Inv.length_origin' t sock array hi
  obtain ⟨pos, hp, rfl⟩ := Option.map_eq_some_iff.mp hh
  obtain ⟨hhead, -, -⟩ := framePosition_some hp
  refine ⟨?_, fun n hn => ?_⟩
  · simp only [List.length_take, List.length_drop, hlen]
  · apply hi.current_origin' n
    rw [← hhead]
    exact List.mem_of_mem_take hn

theorem Inv.readyRead (hi : t.Inv) (db : DB) : (t.readyRead db sock array).Inv := by
  obtain ⟨k, hk, hbuff, horigin⟩ := @readyRead_left t sock array db
  refine ⟨fun s => ?_, fun s => ?_, fun h hh => ?_⟩
  · rw [hbuff, horigin]
    split
    · rw [List.length_drop, List.length_drop, hi.length_origin']
    · exact hi.length s
  · rw [head, hbuff, horigin]
    split
    · next hs =>
      intro n hn
      show n = t.connection s
      rw [hs]
      apply hi.current_origin' n
      rcases hk with rfl | hk
      · exact hn
      · exact List.drop_subset_drop_left _ hk (List.mem_of_mem_drop hn)
    · exact hi.current s
  · rcases List.mem_append.mp hh with hh | hh
    · exact hi.handled h hh
    · exact hi.frame_pure (Option.mem_toList.mp hh)

theorem Inv.step {a : DB × Net.Event} {t' : Traced} (hi : t.Inv) (hok : t.Clean a)
    (hs : t.step a = some t') : t'.Inv := by
  obtain ⟨db, e⟩ := a
  cases e with
  | readyRead sock array =>
    cases hs
    exact hi.readyRead db
  | connected sock =>
    cases hs
    have hbuff := fun s => @Net.buff_onEvent db t.net (.connected sock) (by simp) s
    refine ⟨fun s => by simp only [hbuff, hi.length], fun s => ?_, hi.handled⟩
    simp only [head, hbuff]
    split
    · next h =>
      -- no head byte: nothing is left from it on
      intro n hn
      subst h
      have hnone : (t.net.buff s).findIdx (· == 0x5A) = (t.net.buff s).length := by
        rw [List.findIdx_eq_length]
        intro x hx
        have : x ≠ 0x5A := fun h => hok (h ▸ hx)
        simpa using this
      rw [hnone, ← hi.length, List.drop_length] at hn
      exact absurd hn List.not_mem_nil
    · exact hi.current s
  | _ =>
    cases hs
    refine ⟨fun s => ?_, fun s => ?_, hi.handled⟩
    · rw [Net.buff_onEvent (by simp)]
      exact hi.length s
    · rw [head, Net.buff_onEvent (by simp)]
      exact hi.current s

theorem inv_init : ({} : Traced).Inv :=
  ⟨fun s => by cases s <;> rfl, fun s => by simp, by simp⟩

/-- **Reconnect isolation.** In every run in which each new connection of a socket finds no head
byte in that socket's receive buffer, every frame handed to a handler consists only of bytes
received on the connection that was current. -/
theorem handled_of_meets (acts : List (DB × Net.Event)) (t : Traced)
    (hok : Meets step Clean {} acts) (hrun : run step {} acts = some t) :
    ∀ h ∈ t.handled, h.Pure := by
  have hinv : t.Inv := run_invariant (fun _ _ _ hi ho hs => hi.step ho hs) inv_init hok hrun
  exact hinv.handled

/-- An answer on a first connection, and one on a second. -/
theorem handled_of_meets_two_connections :
    let answer : MESPack := { cmdSerial := 0x93, body := [0] }
    let acts : List (DB × Net.Event) :=
      [({}, .start), ({}, .connected .a), ({}, .readyRead .a answer.toByteArray), ({}, .closed .a),
        ({}, .restart), ({}, .connected .a), ({}, .readyRead .a answer.toByteArray)]
    ∃ t, run step {} acts = some t ∧ t.handled.length = 2 ∧ ∀ h ∈ t.handled, h.Pure := by
  intro answer acts
  exact ⟨_, rfl, by decide, handled_of_meets acts _ (by decide) rfl⟩

/-- The first connection ends after six bytes of an answer. Three bytes of the next connection
complete them to a frame, which goes to the handler for defects. -/
theorem handled_mixed :
    ¬ ∀ (acts : List (DB × Net.Event)) (t : Traced), run step {} acts = some t →
      ∀ h ∈ t.handled, Net.handlers (MESPack.parse h.frame) ≠ [] → h.Pure := by
  intro h
  have := h
    [({}, .start), ({}, .connected .a), ({}, .readyRead .a [0x5A, 0, 0, 2, 0, 0x93]),
      ({}, .closed .a), ({}, .restart), ({}, .connected .a), ({}, .readyRead .a [0x5A, 0, 0])] _ rfl
  revert this
  decide

end Traced

end ProgrammingPath.Mes
