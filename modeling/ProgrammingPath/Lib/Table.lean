import Mathlib.Data.List.Sort
import Mathlib.Data.List.Perm.Basic

/-!
# Tables with a primary key

A table is a list of rows, in the order in which they were stored, together with the proof that no
two rows have the same key. The operations are the statements a program sends to such a table:
`REPLACE INTO`, `DELETE … WHERE`, `UPDATE … SET … WHERE` and `SELECT … WHERE … ORDER BY`.
-/

namespace ProgrammingPath.Lib

variable {ρ κ : Type}

structure Table (key : ρ → κ) where
  rows : List ρ
  nodup : (rows.map key).Nodup

namespace Table

variable {key : ρ → κ}

@[ext] theorem ext {t u : Table key} (h : t.rows = u.rows) : t = u := by
  cases t
  cases u
  cases h
  rfl

instance [DecidableEq ρ] : DecidableEq (Table key) := fun t u =>
  decidable_of_iff (t.rows = u.rows) ⟨ext, congrArg rows⟩

/-- The table without rows. -/
def empty : Table key := ⟨[], by simp⟩

/-- `DELETE FROM t WHERE p`. -/
def delete (t : Table key) (p : ρ → Bool) : Table key where
  rows := t.rows.filter (fun r => !p r)
  nodup := t.nodup.sublist (List.filter_sublist.map key)

/-- `UPDATE t SET … WHERE p`, for an update that leaves the key alone. -/
def update (t : Table key) (p : ρ → Bool) (f : ρ → ρ) (hf : ∀ r, key (f r) = key r) :
    Table key where
  rows := t.rows.map (fun r => if p r then f r else r)
  nodup := by
    have hkey : (key ∘ fun r => if p r = true then f r else r) = key := by
      funext r
      simp only [Function.comp]
      split
      · exact hf r
      · rfl
    rw [List.map_map, hkey]
    exact t.nodup

variable [DecidableEq κ]

/-- `REPLACE INTO t`: a row with the same key goes, the new row is stored last. -/
def replace (t : Table key) (r : ρ) : Table key where
  rows := t.rows.filter (fun s => key s ≠ key r) ++ [r]
  nodup := by
    rw [List.map_append, List.nodup_append]
    refine ⟨t.nodup.sublist (List.filter_sublist.map key), by simp, ?_⟩
    intro a ha b hb
    obtain ⟨s, hs, rfl⟩ := List.mem_map.mp ha
    rw [List.map_singleton, List.mem_singleton] at hb
    rw [hb]
    simpa using (List.mem_filter.mp hs).2

/-- The row with a given key. -/
def lookup (t : Table key) (k : κ) : Option ρ := t.rows.find? (fun r => key r = k)

/-! ## Membership -/

omit [DecidableEq κ] in
@[simp] theorem mem_delete {t : Table key} {p : ρ → Bool} {r : ρ} :
    r ∈ (t.delete p).rows ↔ r ∈ t.rows ∧ p r = false := by
  simp [delete]

omit [DecidableEq κ] in
theorem mem_update {t : Table key} {p : ρ → Bool} {f : ρ → ρ} {hf : ∀ r, key (f r) = key r}
    {r : ρ} : r ∈ (t.update p f hf).rows ↔ ∃ s ∈ t.rows, (if p s then f s else s) = r := by
  simp [update]

omit [DecidableEq κ] in
/-- An update that leaves every row it finds as it is. -/
theorem update_of_forall {t : Table key} {p : ρ → Bool} {f : ρ → ρ} {hf : ∀ r, key (f r) = key r}
    (h : ∀ r ∈ t.rows, p r = true → f r = r) : t.update p f hf = t := by
  apply ext
  show t.rows.map _ = t.rows
  conv_rhs => rw [← List.map_id t.rows]
  apply List.map_congr_left
  intro r hr
  split
  · next hp => exact h r hr hp
  · rfl

omit [DecidableEq κ] in
/-- Where no row is meant, none is deleted. -/
theorem delete_of_forall {t : Table key} {p : ρ → Bool} (h : ∀ r ∈ t.rows, p r = false) :
    t.delete p = t := by
  refine ext (List.filter_eq_self.mpr fun r hr => ?_)
  simp [h r hr]

@[simp] theorem mem_replace {t : Table key} {r s : ρ} :
    s ∈ (t.replace r).rows ↔ (s ∈ t.rows ∧ key s ≠ key r) ∨ s = r := by
  simp [replace]

omit [DecidableEq κ] in
/-- Rows are determined by their key. -/
theorem eq_of_key_eq {t : Table key} {r s : ρ} (hr : r ∈ t.rows) (hs : s ∈ t.rows)
    (h : key r = key s) : r = s :=
  List.inj_on_of_nodup_map t.nodup hr hs h

theorem lookup_eq_some {t : Table key} {k : κ} {r : ρ} :
    t.lookup k = some r ↔ r ∈ t.rows ∧ key r = k := by
  constructor
  · intro h
    exact ⟨List.mem_of_find?_eq_some h, by simpa using List.find?_some h⟩
  · rintro ⟨hr, rfl⟩
    have hsome : (t.lookup (key r)).isSome := by
      rw [lookup, List.find?_isSome]
      exact ⟨r, hr, by simp⟩
    obtain ⟨s, hs⟩ := Option.isSome_iff_exists.mp hsome
    rw [hs, eq_of_key_eq (List.mem_of_find?_eq_some hs) hr (by simpa using List.find?_some hs)]

/-! ## Changing rows one after the other -/

omit [DecidableEq κ] in
/-- An update of one row for each of the keys: every row is changed by the item with its key, if there is one. -/
theorem rows_foldl_update {α : Type} {t : Table key} {l : List α} (k : α → κ) (p : α → ρ → Bool)
    (hp : ∀ a r, p a r = true ↔ key r = k a) (f : α → ρ → ρ) (hf : ∀ a r, key (f a r) = key r)
    (hl : (l.map k).Nodup) :
    (l.foldl (fun t a => t.update (p a) (f a) (hf a)) t).rows =
      t.rows.map fun r => ((l.find? (p · r)).map (f · r)).getD r := by
  induction l generalizing t with
  | nil => exact (List.map_id _).symm
  | cons a l ih =>
    rw [List.map_cons, List.nodup_cons] at hl
    rw [List.foldl_cons, ih hl.2, update, List.map_map]
    apply List.map_congr_left
    intro r _
    rw [Function.comp_apply, List.find?_cons]
    by_cases hr : p a r = true
    · -- no later item has this key
      have hnone : l.find? (p · (f a r)) = none := by
        rw [List.find?_eq_none]
        intro b hb hkey
        have hkey' : k b = k a := ((hp b _).mp hkey).symm.trans ((hf a r).trans ((hp a r).mp hr))
        exact hl.1 (hkey' ▸ List.mem_map_of_mem hb)
      rw [if_pos hr, hnone, hr]
      rfl
    · rw [if_neg hr, Bool.eq_false_iff.mpr hr]

/-! ## Storing a row under a new key, and storing all rows again -/

theorem rows_replace_of_new {t : Table key} {r : ρ} (h : ∀ s ∈ t.rows, key s ≠ key r) :
    (t.replace r).rows = t.rows ++ [r] := by
  have hkeep : t.rows.filter (fun s => key s ≠ key r) = t.rows :=
    List.filter_eq_self.mpr (fun s hs => by simpa using h s hs)
  show t.rows.filter (fun s => key s ≠ key r) ++ [r] = _
  rw [hkeep]

/-- Storing a row under the key of a row that is there leaves the others. -/
theorem perm_cons_filter {t : Table key} {r : ρ} (h : r ∈ t.rows) :
    t.rows.Perm (r :: t.rows.filter (fun s => key s ≠ key r)) := by
  obtain ⟨l, l', hrows⟩ := List.append_of_mem h
  have hnodup := t.nodup
  rw [hrows, List.map_append, List.map_cons, List.nodup_middle, List.nodup_cons] at hnodup
  have hother : ∀ s ∈ l ++ l', decide (key s ≠ key r) = true := by
    intro s hs
    have hmem : key s ∈ l.map key ++ l'.map key := by
      rw [← List.map_append]
      exact List.mem_map_of_mem hs
    simpa using fun heq : key s = key r => hnodup.1 (heq ▸ hmem)
  have hkeep : t.rows.filter (fun s => key s ≠ key r) = l ++ l' := by
    rw [hrows, List.filter_append, List.filter_cons_of_neg (by simp), ← List.filter_append]
    exact List.filter_eq_self.mpr hother
  rw [hkeep, hrows]
  exact List.perm_middle

/-- Storing rows with distinct keys one after the other: the old rows with other keys stay, the
new ones follow in order. -/
theorem rows_foldl_replace {t : Table key} {l : List ρ} (hl : (l.map key).Nodup) :
    (l.foldl replace t).rows = t.rows.filter (fun s => key s ∉ l.map key) ++ l := by
  induction l generalizing t with
  | nil => simp
  | cons r l ih =>
    rw [List.map_cons, List.nodup_cons] at hl
    rw [List.foldl_cons, ih hl.2]
    show (t.rows.filter (fun s => key s ≠ key r) ++ [r]).filter _ ++ l = _
    rw [List.filter_append, List.filter_filter, List.filter_singleton]
    simp only [decide_not, hl.1, decide_false, Bool.not_false, cond_true,
      List.append_assoc, List.singleton_append]
    congr 1
    apply List.filter_congr
    intro s _
    by_cases hs : key s = key r <;> simp [hs]

/-- If the rows stored again cover all keys, they are the table. -/
theorem rows_foldl_replace_of_perm {t : Table key} {l : List ρ}
    (h : (l.map key).Perm (t.rows.map key)) : (l.foldl replace t).rows = l := by
  rw [rows_foldl_replace (h.nodup_iff.mpr t.nodup)]
  have hnone : t.rows.filter (fun s => key s ∉ l.map key) = [] := by
    rw [List.filter_eq_nil_iff]
    intro s hs
    have : key s ∈ l.map key := h.mem_iff.mpr (List.mem_map_of_mem hs)
    simpa using this
  rw [hnone, List.nil_append]

/-! ## Rows seen through a function -/

section Map

variable {ρ' : Type} {key' : ρ' → κ}

omit [DecidableEq κ] in
theorem map_key_comp {f : ρ → ρ'} (hf : ∀ r, key' (f r) = key r) (l : List ρ) :
    (l.map f).map key' = l.map key := by
  rw [List.map_map]
  exact List.map_congr_left fun r _ => hf r

/-- The rows with part of what they hold, the key included. -/
def map (t : Table key) (f : ρ → ρ') (hf : ∀ r, key' (f r) = key r) : Table key' where
  rows := t.rows.map f
  nodup := by
    rw [map_key_comp hf]
    exact t.nodup

theorem map_replace {t : Table key} {f : ρ → ρ'} {hf : ∀ r, key' (f r) = key r} {r : ρ} :
    (t.replace r).map f hf = (t.map f hf).replace (f r) := by
  refine ext ?_
  show (t.rows.filter _ ++ [r]).map f = (t.rows.map f).filter _ ++ [f r]
  rw [List.map_append, List.filter_map]
  simp only [Function.comp_def, hf]
  rfl

theorem lookup_map (t : Table key) (f : ρ → ρ') (hf : ∀ r, key' (f r) = key r) (k : κ) :
    (t.map f hf).lookup k = (t.lookup k).map f := by
  show (t.rows.map f).find? _ = (t.rows.find? _).map f
  rw [List.find?_map]
  simp only [Function.comp_def, hf]

end Map

end Table

/-! ## Tables that number their rows

An `AutoTable` has an integer key that the table itself hands out (`AUTOINCREMENT`): `seq` is the
last number given, so a new row gets a number no row ever had. The number is also the place of the
row in a scan, so the rows are kept in ascending order and a row stored again stays where it was. -/

structure AutoTable (key : ρ → Nat) where
  rows : List ρ
  sorted : (rows.map key).Pairwise (· < ·)
  seq : Nat
  le_seq : ∀ r ∈ rows, key r ≤ seq

namespace AutoTable

variable {key : ρ → Nat}

@[ext] theorem ext {t u : AutoTable key} (h : t.rows = u.rows) (hs : t.seq = u.seq) : t = u := by
  cases t
  cases u
  cases h
  cases hs
  rfl

instance [DecidableEq ρ] : DecidableEq (AutoTable key) := fun t u =>
  decidable_of_iff (t.rows = u.rows ∧ t.seq = u.seq)
    ⟨fun h => ext h.1 h.2, fun h => by subst h; exact ⟨rfl, rfl⟩⟩

/-- The table without rows. -/
def empty : AutoTable key := ⟨[], by simp, 0, by simp⟩

/-- `DELETE FROM t WHERE p`. -/
def delete (t : AutoTable key) (p : ρ → Bool) : AutoTable key where
  rows := t.rows.filter (fun r => !p r)
  sorted := t.sorted.sublist (List.filter_sublist.map key)
  seq := t.seq
  le_seq := fun r hr => t.le_seq r (List.mem_filter.mp hr).1

/-- `UPDATE t SET … WHERE p`, for an update that leaves the key alone. -/
def update (t : AutoTable key) (p : ρ → Bool) (f : ρ → ρ) (hf : ∀ r, key (f r) = key r) :
    AutoTable key where
  rows := t.rows.map (fun r => if p r then f r else r)
  sorted := by
    have hkey : (key ∘ fun r => if p r = true then f r else r) = key := by
      funext r
      simp only [Function.comp]
      split
      · exact hf r
      · rfl
    rw [List.map_map, hkey]
    exact t.sorted
  seq := t.seq
  le_seq := by
    intro r hr
    obtain ⟨s, hs, rfl⟩ := List.mem_map.mp hr
    have := t.le_seq s hs
    split
    · rwa [hf]
    · exact this

/-- `INSERT INTO t`: the row is built from the number it gets. -/
def insert (t : AutoTable key) (mk : Nat → ρ) (hmk : ∀ n, key (mk n) = n) : AutoTable key where
  rows := t.rows ++ [mk (t.seq + 1)]
  sorted := by
    rw [List.map_append, List.pairwise_append]
    refine ⟨t.sorted, by simp, ?_⟩
    intro a ha b hb
    obtain ⟨r, hr, rfl⟩ := List.mem_map.mp ha
    rw [List.map_singleton, List.mem_singleton] at hb
    have := t.le_seq r hr
    rw [hb, hmk]
    omega
  seq := t.seq + 1
  le_seq := by
    intro r hr
    rcases List.mem_append.mp hr with hr | hr
    · exact Nat.le_succ_of_le (t.le_seq r hr)
    · rw [List.mem_singleton.mp hr, hmk]

/-- Store a row under the number of the first row that `p` finds, or under a new number. -/
def save (t : AutoTable key) (p : ρ → Bool) (mk : Nat → ρ) (hmk : ∀ n, key (mk n) = n) :
    AutoTable key :=
  match t.rows.find? p with
  | some old => t.update (fun r => key r == key old) (fun r => mk (key r)) (fun _ => hmk _)
  | none => t.insert mk hmk

variable {t : AutoTable key} {mk : Nat → ρ} {hmk : ∀ n, key (mk n) = n}

/-- Rows are determined by their key. -/
theorem eq_of_key_eq {r s : ρ} (hr : r ∈ t.rows) (hs : s ∈ t.rows) (h : key r = key s) : r = s :=
  List.inj_on_of_nodup_map (t.sorted.imp Nat.ne_of_lt) hr hs h

@[simp] theorem mem_delete {p : ρ → Bool} {r : ρ} :
    r ∈ (t.delete p).rows ↔ r ∈ t.rows ∧ p r = false := by
  simp [delete]

/-- Where no row is meant, none is deleted. -/
theorem delete_of_forall {p : ρ → Bool} (h : ∀ r ∈ t.rows, p r = false) : t.delete p = t := by
  refine ext (List.filter_eq_self.mpr fun r hr => ?_) rfl
  simp [h r hr]

theorem mem_update {p : ρ → Bool} {f : ρ → ρ} {hf : ∀ r, key (f r) = key r} {r : ρ} :
    r ∈ (t.update p f hf).rows ↔ ∃ s ∈ t.rows, (if p s then f s else s) = r := by
  simp [update]

theorem mem_insert {r : ρ} : r ∈ (t.insert mk hmk).rows ↔ r ∈ t.rows ∨ r = mk (t.seq + 1) := by
  simp [insert]

/-! ### Rows seen through a function -/

section Map

variable {ρ' : Type} {key' : ρ' → Nat}

/-- The rows with part of what they hold, the key included. -/
def map (t : AutoTable key) (f : ρ → ρ') (hf : ∀ r, key' (f r) = key r) : AutoTable key' where
  rows := t.rows.map f
  sorted := by
    rw [Table.map_key_comp hf]
    exact t.sorted
  seq := t.seq
  le_seq := by
    intro r hr
    obtain ⟨s, hs, rfl⟩ := List.mem_map.mp hr
    rw [hf]
    exact t.le_seq s hs

theorem map_save {p : ρ → Bool} {f : ρ → ρ'} {hf : ∀ r, key' (f r) = key r} {p' : ρ' → Bool}
    {mk' : Nat → ρ'} {hmk' : ∀ n, key' (mk' n) = n} (hp : ∀ r, p' (f r) = p r)
    (heq : ∀ n, f (mk n) = mk' n) :
    (t.save p mk hmk).map f hf = (t.map f hf).save p' mk' hmk' := by
  have hfind : (t.map f hf).rows.find? p' = (t.rows.find? p).map f := by
    show (t.rows.map f).find? p' = _
    rw [List.find?_map]
    simp only [Function.comp_def, hp]
  unfold save
  rw [hfind]
  cases t.rows.find? p with
  | none =>
    refine ext ?_ rfl
    show (t.rows ++ [mk (t.seq + 1)]).map f = t.rows.map f ++ [mk' (t.seq + 1)]
    rw [List.map_append, List.map_singleton, heq]
  | some old =>
    refine ext ?_ rfl
    show (t.rows.map _).map f = (t.rows.map f).map _
    rw [List.map_map, List.map_map]
    refine List.map_congr_left fun r _ => ?_
    show f (if key r == key old then mk (key r) else r) =
      if key' (f r) == key' (f old) then mk' (key' (f r)) else f r
    rw [hf, hf]
    split
    · exact heq _
    · rfl

end Map

/-! ### Rows stored under a tag

Rows may carry a tag other than their key, such as a number within an order. The table does not
make it unique: `Once` says that a tag does not come twice. -/

section Tags

variable {τ σ : Type} {tag : ρ → τ} {k : τ} {p : ρ → Bool}

/-- No two rows have this tag. -/
def Once (t : AutoTable key) (tag : ρ → τ) (k : τ) : Prop :=
  ∀ r ∈ t.rows, ∀ s ∈ t.rows, tag r = k → tag s = k → r = s

theorem rows_save_of_new (h : ∀ r ∈ t.rows, p r = false) :
    (t.save p mk hmk).rows = t.rows ++ [mk (t.seq + 1)] := by
  rw [save, List.find?_eq_none.mpr fun r hr => by simp [h r hr]]
  rfl

/-- A row that is stored as it is leaves the table alone. -/
theorem save_of_mem {r : ρ} (hr : r ∈ t.rows) (hp : p r = true)
    (honly : ∀ s ∈ t.rows, p s = true → s = r) (hsame : mk (key r) = r) :
    t.save p mk hmk = t := by
  have hfind : t.rows.find? p = some r := by
    obtain ⟨s, hs⟩ := Option.isSome_iff_exists.mp (List.find?_isSome.mpr ⟨r, hr, hp⟩)
    rw [hs, honly s (List.mem_of_find?_eq_some hs) (List.find?_some hs)]
  rw [save, hfind]
  refine ext ?_ rfl
  show t.rows.map _ = t.rows
  conv_rhs => rw [← List.map_id t.rows]
  refine List.map_congr_left fun s hs => ?_
  split
  · next heq =>
    rw [eq_of_key_eq hs hr (by simpa using heq)]
    exact hsame
  · rfl

variable (hp : ∀ r, p r = true ↔ tag r = k)
include hp

/-- Rows with other tags stay. -/
theorem mem_save_of_ne {r : ρ} (hr : r ∈ t.rows) (hne : tag r ≠ k) :
    r ∈ (t.save p mk hmk).rows := by
  rw [save]
  cases hfind : t.rows.find? p with
  | none => exact mem_insert.mpr (.inl hr)
  | some old =>
    refine mem_update.mpr ⟨r, hr, if_neg ?_⟩
    intro hkey
    have hold := (hp old).mp (List.find?_some hfind)
    rw [eq_of_key_eq hr (List.mem_of_find?_eq_some hfind) (by simpa using hkey)] at hne
    exact hne hold

omit hp in
theorem exists_mem_save (t : AutoTable key) (p : ρ → Bool) (hmk : ∀ n, key (mk n) = n) :
    ∃ n, mk n ∈ (t.save p mk hmk).rows := by
  rw [save]
  cases hfind : t.rows.find? p with
  | none => exact ⟨_, mem_insert.mpr (.inr rfl)⟩
  | some old =>
    exact ⟨key old, mem_update.mpr ⟨old, List.mem_of_find?_eq_some hfind, if_pos (by simp)⟩⟩

variable [DecidableEq τ]

/-- The new row takes the place of the one with its tag. -/
theorem perm_save (hmk : ∀ n, key (mk n) = n) (honce : t.Once tag k) :
    ∃ n, (t.save p mk hmk).rows.Perm (mk n :: t.rows.filter fun r => tag r ≠ k) := by
  rw [save]
  cases hfind : t.rows.find? p with
  | none =>
    have hnew : t.rows.filter (fun r => tag r ≠ k) = t.rows := by
      refine List.filter_eq_self.mpr fun r hr => ?_
      have hno := List.find?_eq_none.mp hfind r hr
      rw [hp] at hno
      simpa using hno
    refine ⟨t.seq + 1, ?_⟩
    rw [hnew]
    exact List.perm_append_comm
  | some old =>
    have hold := List.mem_of_find?_eq_some hfind
    have htag := (hp old).mp (List.find?_some hfind)
    have hperm : t.rows.Perm (old :: t.rows.filter fun r => tag r ≠ k) := by
      have hone : t.rows.filter (fun r => decide (tag r = k)) = [old] := by
        have hnodup : (t.rows.filter fun r => decide (tag r = k)).Nodup :=
          (List.Nodup.of_map key (t.sorted.imp Nat.ne_of_lt)).filter _
        refine List.perm_singleton.mp ((List.perm_ext_iff_of_nodup hnodup (by simp)).mpr fun r => ?_)
        rw [List.mem_filter, List.mem_singleton]
        constructor
        · rintro ⟨hr, hrtag⟩
          exact honce r hr old hold (by simpa using hrtag) htag
        · rintro rfl
          exact ⟨hold, by simpa using htag⟩
      have hsplit := (List.filter_append_perm (fun r => decide (tag r = k)) t.rows).symm
      rw [hone] at hsplit
      simpa using hsplit
    refine ⟨key old, (hperm.map _).trans ?_⟩
    rw [List.map_cons, if_pos (by simp)]
    refine List.Perm.cons _ (List.Perm.of_eq ?_)
    conv_rhs => rw [← List.map_id (t.rows.filter _)]
    refine List.map_congr_left fun r hr => if_neg ?_
    intro hkey
    obtain ⟨hr, hne⟩ := List.mem_filter.mp hr
    rw [eq_of_key_eq hr hold (by simpa using hkey), htag] at hne
    simp at hne

end Tags

section SaveAll

variable {τ σ : Type} {tag : ρ → τ} {k : σ → τ} {p : σ → ρ → Bool} {mk : σ → Nat → ρ}
  (hmk : ∀ x n, key (mk x n) = n)

/-- Store the rows of a list, one after the other. -/
def saveAll (t : AutoTable key) (p : σ → ρ → Bool) (mk : σ → Nat → ρ)
    (hmk : ∀ x n, key (mk x n) = n) (l : List σ) : AutoTable key :=
  l.foldl (fun t x => t.save (p x) (mk x) (hmk x)) t

variable (hp : ∀ x r, p x r = true ↔ tag r = k x) (htag : ∀ x n, tag (mk x n) = k x)
include hp

theorem mem_saveAll_of_forall {l : List σ} {r : ρ} (hr : r ∈ t.rows) (hne : tag r ∉ l.map k) :
    r ∈ (t.saveAll p mk hmk l).rows := by
  induction l generalizing t with
  | nil => exact hr
  | cons x l ih =>
    rw [List.map_cons, List.mem_cons, not_or] at hne
    exact ih (mem_save_of_ne (hp x) hr hne.1) hne.2

include htag

/-- Every row of the list is stored under some number. -/
theorem exists_mem_saveAll {l : List σ} (hl : (l.map k).Nodup) :
    ∀ x ∈ l, ∃ n, mk x n ∈ (t.saveAll p mk hmk l).rows := by
  induction l generalizing t with
  | nil => exact List.forall_mem_nil _
  | cons x l ih =>
    rw [List.map_cons, List.nodup_cons] at hl
    refine List.forall_mem_cons.mpr ⟨?_, ih hl.2⟩
    obtain ⟨n, hn⟩ := exists_mem_save t (p x) (hmk x)
    exact ⟨n, mem_saveAll_of_forall hmk (l := l) hp hn (by rw [htag]; exact hl.1)⟩

/-- Rows that are all there as they are stored leave the table alone. -/
theorem saveAll_of_mem {l : List σ} (h : ∀ x ∈ l, t.Once tag (k x) ∧
    ∃ r ∈ t.rows, mk x (key r) = r) : t.saveAll p mk hmk l = t := by
  induction l with
  | nil => rfl
  | cons x l ih =>
    obtain ⟨⟨honce, r, hr, hsame⟩, hl⟩ := List.forall_mem_cons.mp h
    have hrtag : tag r = k x := by rw [← hsame, htag]
    have hsave : t.save (p x) (mk x) (hmk x) = t :=
      save_of_mem hr ((hp x r).mpr hrtag)
        (fun s hs hps => honce s hs r hr ((hp x s).mp hps) hrtag) hsame
    rw [saveAll, List.foldl_cons, hsave]
    exact ih hl

/-- Where none of the tags is there, the rows follow the old ones in order. -/
theorem rows_saveAll_of_new {l : List σ} (hl : (l.map k).Nodup)
    (h : ∀ r ∈ t.rows, tag r ∉ l.map k) :
    ∃ l', List.Forall₂ (fun x r => ∃ n, r = mk x n) l l' ∧
      (t.saveAll p mk hmk l).rows = t.rows ++ l' := by
  induction l generalizing t with
  | nil => exact ⟨[], .nil, (List.append_nil _).symm⟩
  | cons x l ih =>
    rw [List.map_cons, List.nodup_cons] at hl
    have hrows : (t.save (p x) (mk x) (hmk x)).rows = t.rows ++ [mk x (t.seq + 1)] := by
      refine rows_save_of_new fun r hr => ?_
      have hne := h r hr
      rw [List.map_cons, List.mem_cons, not_or, ← hp x r] at hne
      simpa using hne.1
    obtain ⟨l', hl', heq⟩ := ih (t := t.save (p x) (mk x) (hmk x)) hl.2 (by
      intro r hr
      rw [hrows, List.mem_append, List.mem_singleton] at hr
      rcases hr with hr | rfl
      · exact fun hmem => h r hr (List.mem_cons_of_mem _ hmem)
      · rw [htag]
        exact hl.1)
    refine ⟨mk x (t.seq + 1) :: l', .cons ⟨_, rfl⟩ hl', ?_⟩
    rw [saveAll, List.foldl_cons]
    rw [saveAll] at heq
    rw [heq, hrows, List.append_assoc]
    rfl

variable [DecidableEq τ]

theorem perm_saveAll_filter {l : List σ} (hl : (l.map k).Nodup)
    (h : ∀ x ∈ l, t.Once tag (k x)) :
    ∃ l', List.Forall₂ (fun x r => ∃ n, r = mk x n) l l' ∧
      (t.saveAll p mk hmk l).rows.Perm (l' ++ t.rows.filter fun r => tag r ∉ l.map k) := by
  induction l generalizing t with
  | nil => exact ⟨[], .nil, by simp [saveAll]⟩
  | cons x l ih =>
    rw [List.map_cons, List.nodup_cons] at hl
    obtain ⟨hx, hrest⟩ := List.forall_mem_cons.mp h
    obtain ⟨n, hn⟩ := perm_save (hp x) (hmk x) hx
    obtain ⟨l', hl', hperm⟩ := ih (t := t.save (p x) (mk x) (hmk x)) hl.2 (by
      -- the other tags are where they were
      intro y hy r hr s hs hrk hsk
      have hne : k y ≠ k x := fun heq => hl.1 (heq ▸ List.mem_map_of_mem hy)
      have hmem : ∀ r ∈ (t.save (p x) (mk x) (hmk x)).rows, tag r = k y → r ∈ t.rows := by
        intro r hr hrk
        rcases List.mem_cons.mp (hn.mem_iff.mp hr) with rfl | hr
        · rw [htag] at hrk
          exact absurd hrk.symm hne
        · exact (List.mem_filter.mp hr).1
      exact hrest y hy r (hmem r hr hrk) s (hmem s hs hsk) hrk hsk)
    refine ⟨mk x n :: l', .cons ⟨n, rfl⟩ hl', hperm.trans ?_⟩
    have hfilter := hn.filter (fun r => decide (tag r ∉ l.map k))
    rw [List.filter_cons_of_pos (by rw [htag]; simpa using hl.1), List.filter_filter] at hfilter
    refine (hfilter.append_left l').trans (List.perm_middle.trans ?_)
    refine List.Perm.cons _ (List.Perm.append_left _ (List.Perm.of_eq ?_))
    refine List.filter_congr fun r _ => ?_
    rw [List.map_cons, ← Bool.decide_and, decide_eq_decide, List.mem_cons, not_or, and_comm]

/-- The rows of the list take the places of those with their tags; `rest` are the others. -/
theorem perm_saveAll {l : List σ} (hl : (l.map k).Nodup) (h : ∀ x ∈ l, t.Once tag (k x)) :
    ∃ l' rest, List.Forall₂ (fun x r => ∃ n, r = mk x n) l l' ∧
      (∀ r, r ∈ rest ↔ r ∈ t.rows ∧ tag r ∉ l.map k) ∧
        (t.saveAll p mk hmk l).rows.Perm (l' ++ rest) := by
  obtain ⟨l', hl', hperm⟩ := perm_saveAll_filter hmk hp htag hl h
  exact ⟨l', _, hl', fun r => by rw [List.mem_filter, decide_eq_true_eq], hperm⟩

end SaveAll

/-! ### Rows that were added -/

/-- `t'` is `t` after some rows were inserted. -/
structure Grown (t t' : AutoTable key) : Prop where
  seq : t.seq ≤ t'.seq
  keep : ∀ r ∈ t.rows, r ∈ t'.rows
  new : ∀ r ∈ t'.rows, r ∈ t.rows ∨ t.seq < key r

namespace Grown

variable {t₁ t₂ t₃ : AutoTable key}

theorem refl (t : AutoTable key) : Grown t t := ⟨Nat.le_refl _, fun _ hr => hr, fun _ hr => .inl hr⟩

theorem of_eq (h : t₂ = t₁) : Grown t₁ t₂ := h ▸ refl t₁

theorem trans (h₁ : Grown t₁ t₂) (h₂ : Grown t₂ t₃) : Grown t₁ t₃ := by
  refine ⟨Nat.le_trans h₁.seq h₂.seq, fun r hr => h₂.keep r (h₁.keep r hr), fun r hr => ?_⟩
  rcases h₂.new r hr with hr | hlt
  · exact h₁.new r hr
  · exact .inr (Nat.lt_of_le_of_lt h₁.seq hlt)

theorem insert : Grown t (t.insert mk hmk) := by
  refine ⟨Nat.le_succ _, fun r hr => mem_insert.mpr (.inl hr), fun r hr => ?_⟩
  rcases mem_insert.mp hr with hr | rfl
  · exact .inl hr
  · right
    rw [hmk]
    exact Nat.lt_succ_self _

end Grown

/-! ### Numbers that were given and are gone -/

/-- Every number that was handed out and has no row any more satisfies `p`. -/
def Accounted (t : AutoTable key) (p : Nat → Prop) : Prop :=
  ∀ n, 0 < n → n ≤ t.seq → (∀ r ∈ t.rows, key r ≠ n) → p n

namespace Accounted

variable {p q : Nat → Prop}

theorem empty (p : Nat → Prop) : (AutoTable.empty : AutoTable key).Accounted p := by
  intro n hpos hle
  exact absurd hle (Nat.not_le_of_gt hpos)

theorem mono (h : t.Accounted p) (hpq : ∀ n, p n → q n) : t.Accounted q :=
  fun n hpos hle hgone => hpq n (h n hpos hle hgone)

/-- A new row takes a number, and has it. -/
theorem insert (h : t.Accounted p) : (t.insert mk hmk).Accounted p := by
  intro n hpos hle hgone
  have hne : n ≠ t.seq + 1 := by
    rintro rfl
    exact hgone (mk (t.seq + 1)) (mem_insert.mpr (.inr rfl)) (hmk _)
  have hle' : n ≤ t.seq + 1 := hle
  exact h n hpos (by omega) (fun r hr => hgone r (mem_insert.mpr (.inl hr)))

/-- A row that is deleted must satisfy `p`, if it was there. -/
theorem delete_key (h : t.Accounted p) {k : Nat} (hk : (∃ r ∈ t.rows, key r = k) → p k) :
    (t.delete (fun r => key r == k)).Accounted p := by
  intro n hpos hle hgone
  by_cases hthere : ∃ r ∈ t.rows, key r = n
  · obtain ⟨r, hr, hrn⟩ := hthere
    by_cases hnk : n = k
    · subst hnk
      exact hk ⟨r, hr, hrn⟩
    · refine absurd hrn (hgone r (mem_delete.mpr ⟨hr, ?_⟩))
      simpa [hrn] using hnk
  · exact h n hpos hle (fun r hr hrn => hthere ⟨r, hr, hrn⟩)

end Accounted

end AutoTable

end ProgrammingPath.Lib
