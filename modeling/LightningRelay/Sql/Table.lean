import Mathlib.Data.List.Nodup
import Mathlib.Data.List.Perm.Subperm
import Mathlib.Tactic.Common

/-!
# Tables with a primary key

A table is the list of its rows, in the order in which a scan visits them, with pairwise distinct
keys.  The operations are those of single SQL statements: the first row that satisfies a condition,
all of them, an update of the rows that satisfy a condition, and an insertion that a used key
refuses.  Each has one lemma that says what it does to `get?`, the row with a given key; later
proofs see a table only through `get?`.
-/

set_option autoImplicit false

namespace Sql

/-- A table of rows `ρ` with primary key `key`. -/
structure Table {ρ κ : Type} (key : ρ → κ) where
  rows : List ρ
  keyed : (rows.map key).Nodup

namespace Table

variable {ρ κ : Type} {key : ρ → κ}

/-- The table without rows. -/
def empty : Table key := ⟨[], List.nodup_nil⟩

/-- The first row that satisfies `p`, in scan order. -/
def first? (t : Table key) (p : ρ → Bool) : Option ρ := t.rows.find? p

/-- The rows that satisfy `p`, in scan order. -/
def select (t : Table key) (p : ρ → Bool) : List ρ := t.rows.filter p

/-- The number of rows that satisfy `p`. -/
def count (t : Table key) (p : ρ → Bool) : ℕ := t.rows.countP p

/-- The row with key `k`. -/
def get? [DecidableEq κ] (t : Table key) (k : κ) : Option ρ := t.first? fun r => key r = k

theorem map_key_update (rows : List ρ) (p : ρ → Bool) (f : ρ → ρ) (hf : ∀ r, key (f r) = key r) :
    (rows.map fun r => if p r then f r else r).map key = rows.map key := by
  rw [List.map_map]
  apply List.map_congr_left
  intro r _
  simp only [Function.comp_apply]
  split <;> simp [hf]

/-- The statement `UPDATE … SET f WHERE p`, for an update that keeps the key. -/
def update (t : Table key) (p : ρ → Bool) (f : ρ → ρ) (hf : ∀ r, key (f r) = key r) : Table key where
  rows := t.rows.map fun r => if p r then f r else r
  keyed := by
    rw [map_key_update t.rows p f hf]
    exact t.keyed

/-- Whether an update `WHERE p` changes any row. -/
def matches? (t : Table key) (p : ρ → Bool) : Bool := t.rows.any p

/-- The rows with `r` in front of the first one that satisfies `before`, at the end if none does. -/
def place (before : ρ → Bool) (r : ρ) (rows : List ρ) : List ρ :=
  rows.takeWhile (fun x => !before x) ++ r :: rows.dropWhile fun x => !before x

theorem place_perm (before : ρ → Bool) (r : ρ) (rows : List ρ) :
    (place before r rows).Perm (r :: rows) := by
  refine List.perm_middle.trans ?_
  rw [List.takeWhile_append_dropWhile]

theorem first?_eq_some {t : Table key} {p : ρ → Bool} {r : ρ} (h : t.first? p = some r) :
    r ∈ t.rows ∧ p r = true :=
  ⟨List.mem_of_find?_eq_some h, List.find?_some h⟩

theorem first?_eq_none_iff {t : Table key} {p : ρ → Bool} :
    t.first? p = none ↔ ∀ r ∈ t.rows, p r = false := by
  simp [first?]

/-- A scan visits every key once. -/
theorem select_keyed (t : Table key) (p : ρ → Bool) : ((t.select p).map key).Nodup :=
  t.keyed.sublist (List.filter_sublist.map key)

section Keys

variable [DecidableEq κ]

/-- The statement `INSERT`: refused when the key is used. -/
def insert? (t : Table key) (before : ρ → Bool) (r : ρ) : Option (Table key) :=
  if h : key r ∈ t.rows.map key then none
  else some
    { rows := place before r t.rows
      keyed := by
        rw [((place_perm before r t.rows).map key).nodup_iff, List.map_cons, List.nodup_cons]
        exact ⟨h, t.keyed⟩ }

variable {t t' : Table key} {r : ρ} {k : κ} {p : ρ → Bool}

theorem mem_rows_iff : r ∈ t.rows ↔ t.get? (key r) = some r := by
  constructor
  · intro hr
    have hsome : (t.get? (key r)).isSome := by
      rw [get?, first?, List.find?_isSome]
      exact ⟨r, hr, by simp⟩
    obtain ⟨r', hr'⟩ := Option.isSome_iff_exists.1 hsome
    obtain ⟨hmem, hkey⟩ := first?_eq_some hr'
    rw [hr', List.inj_on_of_nodup_map t.keyed hmem hr (by simpa using hkey)]
  · exact fun h => (first?_eq_some h).1

theorem key_of_get? (h : t.get? k = some r) : key r = k := by
  simpa using (first?_eq_some h).2

theorem get?_of_mem (h : r ∈ t.rows) : t.get? (key r) = some r := mem_rows_iff.1 h

theorem mem_of_get? (h : t.get? k = some r) : r ∈ t.rows := (first?_eq_some h).1

theorem get?_eq_none_iff : t.get? k = none ↔ ∀ r ∈ t.rows, key r ≠ k := by
  simp [get?, first?]

theorem mem_select : r ∈ t.select p ↔ t.get? (key r) = some r ∧ p r = true := by
  rw [select, List.mem_filter, mem_rows_iff]

theorem get?_of_first? (h : t.first? p = some r) : t.get? (key r) = some r ∧ p r = true :=
  ⟨get?_of_mem (first?_eq_some h).1, (first?_eq_some h).2⟩

theorem get?_update (f : ρ → ρ) (hf : ∀ r, key (f r) = key r) :
    (t.update p f hf).get? k = (t.get? k).map fun r => if p r then f r else r := by
  have hkey : ∀ r, key (if p r then f r else r) = key r := fun r => by split <;> simp [hf]
  simp only [get?, first?, update, List.find?_map]
  congr 2
  funext r
  simp [hkey]

/-- The rows are found by their keys. -/
theorem rows_eq_filterMap (t : Table key) : t.rows = (t.rows.map key).filterMap t.get? := by
  rw [List.filterMap_map]
  calc t.rows = t.rows.filterMap some := List.filterMap_some.symm
    _ = t.rows.filterMap (t.get? ∘ key) :=
      List.filterMap_congr fun r hr => (get?_of_mem hr).symm

/-- A table is determined by its keys, in order, and the rows that they find. -/
theorem ext_get? (hkeys : t.rows.map key = t'.rows.map key) (h : ∀ k, t.get? k = t'.get? k) :
    t = t' := by
  have hrows : t.rows = t'.rows := by
    rw [t.rows_eq_filterMap, t'.rows_eq_filterMap, hkeys, funext h]
  cases t
  cases t'
  congr

/-- The condition `key = k AND q`. -/
def onKey (key : ρ → κ) (k : κ) (q : ρ → Bool) : ρ → Bool := fun r => key r = k && q r

theorem get?_update_onKey_self (q : ρ → Bool) (f : ρ → ρ) (hf : ∀ r, key (f r) = key r) :
    (t.update (onKey key k q) f hf).get? k =
      (t.get? k).map fun r => if q r then f r else r := by
  rw [get?_update]
  rcases h : t.get? k with _ | r
  · rfl
  · simp [onKey, key_of_get? h]

theorem get?_update_onKey_of_ne {k' : κ} (hk : k' ≠ k) (q : ρ → Bool) (f : ρ → ρ)
    (hf : ∀ r, key (f r) = key r) :
    (t.update (onKey key k q) f hf).get? k' = t.get? k' := by
  rw [get?_update]
  rcases h : t.get? k' with _ | r
  · rfl
  · simp [onKey, key_of_get? h, hk]

theorem matches?_onKey (q : ρ → Bool) :
    t.matches? (onKey key k q) = true ↔ ∃ r, t.get? k = some r ∧ q r = true := by
  simp only [matches?, onKey, List.any_eq_true, Bool.and_eq_true, decide_eq_true_eq]
  constructor
  · rintro ⟨r, hr, rfl, hq⟩
    exact ⟨r, get?_of_mem hr, hq⟩
  · rintro ⟨r, hr, hq⟩
    exact ⟨r, mem_of_get? hr, key_of_get? hr, hq⟩

theorem mem_insert? {before : ρ → Bool} {x : ρ} (h : t.insert? before r = some t') :
    x ∈ t'.rows ↔ x = r ∨ x ∈ t.rows := by
  unfold insert? at h
  split_ifs at h
  obtain rfl := Option.some.inj h
  rw [(place_perm before r t.rows).mem_iff, List.mem_cons]

theorem get?_insert?_none {before : ρ → Bool} (h : t.insert? before r = some t') :
    t.get? (key r) = none := by
  unfold insert? at h
  split_ifs at h with hk
  rw [get?_eq_none_iff]
  exact fun x hx e => hk (e ▸ List.mem_map_of_mem hx)

theorem get?_insert? {before : ρ → Bool} (h : t.insert? before r = some t') :
    t'.get? k = if k = key r then some r else t.get? k := by
  split_ifs with hk
  · subst hk
    exact get?_of_mem ((mem_insert? h).2 (Or.inl rfl))
  · rcases hg : t.get? k with _ | x
    · rw [get?_eq_none_iff] at hg ⊢
      intro x hx
      rcases (mem_insert? h).1 hx with rfl | hx
      · exact Ne.symm hk
      · exact hg x hx
    · have hx := get?_of_mem ((mem_insert? h).2 (Or.inr (mem_of_get? hg)))
      rwa [key_of_get? hg] at hx

theorem insert?_eq_none_iff {before : ρ → Bool} :
    t.insert? before r = none ↔ (t.get? (key r)).isSome := by
  rw [Option.isSome_iff_ne_none, ne_eq, get?_eq_none_iff]
  unfold insert?
  split_ifs with h
  · obtain ⟨x, hx, e⟩ := List.mem_map.1 h
    simpa using ⟨x, hx, e⟩
  · simp only [List.mem_map, not_exists, not_and] at h
    simpa using h

theorem isSome_insert?_iff {before : ρ → Bool} :
    (t.insert? before r).isSome = true ↔ t.get? (key r) = none := by
  rcases h : t.insert? before r with _ | t'
  · obtain ⟨x, hx⟩ := Option.isSome_iff_exists.1 (insert?_eq_none_iff.1 h)
    simp [hx]
  · simp [get?_insert?_none h]

/-- The rows after an `INSERT` that may be refused: a row that is there stays. -/
theorem get?_getD_insert? (t : Table key) (before : ρ → Bool) (r : ρ) (k : κ) :
    ((t.insert? before r).getD t).get? k = if k = key r then (t.get? k).or (some r) else t.get? k := by
  rcases h : t.insert? before r with _ | t'
  · rw [Option.getD_none]
    split_ifs with hk
    · obtain ⟨x, hx⟩ := Option.isSome_iff_exists.1 (insert?_eq_none_iff.1 h)
      rw [hk, hx, Option.some_or]
    · rfl
  · rw [Option.getD_some, get?_insert? h]
    split_ifs with hk
    · rw [hk, get?_insert?_none h, Option.none_or]
    · rfl

/-- A count grows by the keys `ks` at most, when every other row that satisfies `p` did so before. -/
theorem count_le_of_get? (ks : List κ)
    (h : ∀ k r', t'.get? k = some r' → p r' = true → k ∈ ks ∨ ∃ r, t.get? k = some r ∧ p r = true) :
    t'.count p ≤ t.count p + ks.length := by
  have hsub : (t'.select p).map key ⊆ ks ++ (t.select p).map key := by
    intro k hk
    obtain ⟨r', hr', rfl⟩ := List.mem_map.1 hk
    obtain ⟨hget, hp⟩ := mem_select.1 hr'
    rcases h _ r' hget hp with hks | ⟨r, hr, hpr⟩
    · exact List.mem_append_left _ hks
    · have hkey : key r = key r' := key_of_get? hr
      rw [← hkey] at hr ⊢
      exact List.mem_append_right _ (List.mem_map_of_mem (mem_select.2 ⟨hr, hpr⟩))
  have hlen := (List.subperm_of_subset (t'.select_keyed p) hsub).length_le
  rw [List.length_append, List.length_map, List.length_map] at hlen
  rw [count, count, List.countP_eq_length_filter, List.countP_eq_length_filter, Nat.add_comm]
  exact hlen

end Keys

end Table

end Sql
