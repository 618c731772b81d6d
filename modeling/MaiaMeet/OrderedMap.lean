import Mathlib.Data.List.Nodup
set_option autoImplicit false

/-- A finite map that remembers insertion order. Keys are distinct by construction,
so a key is bound once and the entries are the whole observable state. -/
structure OrderedMap (K V : Type) where
  entries : List (K × V)
  nodup : (entries.map Prod.fst).Nodup
  deriving DecidableEq, Repr

namespace OrderedMap

variable {K V : Type}

def empty : OrderedMap K V := ⟨[],List.nodup_nil⟩

def keys (m : OrderedMap K V) : List K := m.entries.map Prod.fst
def values (m : OrderedMap K V) : List V := m.entries.map Prod.snd
def size (m : OrderedMap K V) : Nat := m.entries.length

@[simp] theorem entries_empty : (empty : OrderedMap K V).entries = [] := rfl
@[simp] theorem size_empty : (empty : OrderedMap K V).size = 0 := rfl
@[simp] theorem keys_empty : (empty : OrderedMap K V).keys = [] := rfl
@[simp] theorem values_empty : (empty : OrderedMap K V).values = [] := rfl

theorem keys_nodup (m : OrderedMap K V) : m.keys.Nodup := m.nodup

variable [DecidableEq K]

def get (m : OrderedMap K V) (k : K) : Option V :=
  (m.entries.find? (fun e => e.1 = k)).map Prod.snd

def has (m : OrderedMap K V) (k : K) : Bool := (m.get k).isSome

@[simp] theorem get_empty (k : K) : (empty : OrderedMap K V).get k = none := rfl

theorem get_eq_some_iff (m : OrderedMap K V) (k : K) (v : V) :
    m.get k = some v ↔ (k,v) ∈ m.entries := by
  obtain ⟨l,hl⟩ := m
  simp only [get]
  induction l with
  | nil => simp
  | cons e l ih =>
    obtain ⟨j,w⟩ := e
    have hj := List.nodup_cons.mp hl
    by_cases h : j = k
    · subst j
      have hk : ∀ u, (k,u) ∉ l := fun u hu => hj.1 (List.mem_map.mpr ⟨(k,u),hu,rfl⟩)
      simp [hk,eq_comm]
    · have hk : k ≠ j := fun he => h he.symm
      simp only [List.find?_cons,h,decide_false,List.mem_cons,Prod.mk.injEq,hk,false_and,
        false_or]
      exact ih hj.2

theorem get_eq_none_iff (m : OrderedMap K V) (k : K) : m.get k = none ↔ k ∉ m.keys := by
  simp only [get,keys,Option.map_eq_none_iff,List.find?_eq_none,decide_eq_true_eq,List.mem_map,
    not_exists,not_and]

theorem get_isSome_iff (m : OrderedMap K V) (k : K) : (m.get k).isSome ↔ k ∈ m.keys := by
  rw [← not_iff_not,← get_eq_none_iff]
  simp

theorem mem_keys_of_get {m : OrderedMap K V} {k : K} {v : V} (h : m.get k = some v) :
    k ∈ m.keys := by
  rw [← get_isSome_iff,h]; rfl

theorem mem_values_iff (m : OrderedMap K V) (v : V) : v ∈ m.values ↔ ∃ k, m.get k = some v := by
  simp only [values,List.mem_map,Prod.exists,get_eq_some_iff]
  constructor
  · rintro ⟨k,u,hm,rfl⟩; exact ⟨k,hm⟩
  · rintro ⟨k,hm⟩; exact ⟨k,v,hm,rfl⟩

/-- `set` of a bound key keeps the key's place; an unbound key goes last. -/
def set (m : OrderedMap K V) (k : K) (v : V) : OrderedMap K V :=
  if h : k ∈ m.entries.map Prod.fst then
    ⟨m.entries.map (fun e => if e.1 = k then (k,v) else e), by
      have hmap : (m.entries.map (fun e => if e.1 = k then (k,v) else e)).map Prod.fst =
          m.entries.map Prod.fst := by
        rw [List.map_map]
        apply List.map_congr_left
        intro e _
        by_cases he : e.1 = k <;> simp [he]
      rw [hmap]; exact m.nodup⟩
  else
    ⟨m.entries ++ [(k,v)], by
      simp only [List.map_append,List.map_cons,List.map_nil]
      exact List.nodup_append.mpr ⟨m.nodup,List.nodup_singleton k,by
        intro a ha b hb hab
        rw [List.mem_singleton] at hb
        subst b; subst a; exact h ha⟩⟩

def delete (m : OrderedMap K V) (k : K) : OrderedMap K V :=
  ⟨m.entries.filter (fun e => e.1 ≠ k), m.nodup.sublist (List.filter_sublist.map Prod.fst)⟩

@[simp] theorem entries_delete (m : OrderedMap K V) (k : K) :
    (m.delete k).entries = m.entries.filter (fun e => e.1 ≠ k) := rfl

theorem entries_set_new {m : OrderedMap K V} {k : K} (v : V) (h : m.get k = none) :
    (m.set k v).entries = m.entries ++ [(k,v)] := by
  have hk : k ∉ m.entries.map Prod.fst := (m.get_eq_none_iff k).mp h
  rw [set,dif_neg hk]

theorem get_set (m : OrderedMap K V) (k j : K) (v : V) :
    (m.set k v).get j = if j = k then some v else m.get j := by
  apply Option.ext
  intro u
  have hset : (m.set k v).get j = some u ↔
      (j = k ∧ u = v) ∨ (j ≠ k ∧ (j,u) ∈ m.entries) := by
    rw [get_eq_some_iff]
    by_cases hk : k ∈ m.entries.map Prod.fst
    · rw [set,dif_pos hk]
      simp only [List.mem_map,Prod.exists]
      constructor
      · rintro ⟨a,b,hm,he⟩
        by_cases ha : a = k
        · simp only [ha,if_true,Prod.mk.injEq] at he
          exact Or.inl ⟨he.1.symm,he.2.symm⟩
        · simp only [ha,if_false,Prod.mk.injEq] at he
          obtain ⟨rfl,rfl⟩ := he
          exact Or.inr ⟨ha,hm⟩
      · rintro (⟨rfl,rfl⟩ | ⟨hj,hm⟩)
        · obtain ⟨e,he,hek⟩ := List.mem_map.mp hk
          exact ⟨e.1,e.2,he,by simp [hek]⟩
        · exact ⟨j,u,hm,by simp [hj]⟩
    · rw [set,dif_neg hk]
      have hk' : ∀ w, (k,w) ∉ m.entries :=
        fun w hw => hk (List.mem_map.mpr ⟨(k,w),hw,rfl⟩)
      simp only [List.mem_append,List.mem_singleton,Prod.mk.injEq]
      constructor
      · rintro (hm | h)
        · refine Or.inr ⟨?_,hm⟩
          rintro rfl
          exact hk' u hm
        · exact Or.inl h
      · rintro (h | ⟨_,hm⟩)
        · exact Or.inr h
        · exact Or.inl hm
  rw [hset]
  by_cases hj : j = k
  · simp [hj,eq_comm]
  · simp [hj,get_eq_some_iff]

theorem get_delete (m : OrderedMap K V) (k j : K) :
    (m.delete k).get j = if j = k then none else m.get j := by
  apply Option.ext
  intro u
  rw [get_eq_some_iff,entries_delete,List.mem_filter]
  by_cases hj : j = k
  · simp [hj]
  · simp [hj,get_eq_some_iff]

def mapValues (m : OrderedMap K V) (f : V → V) : OrderedMap K V :=
  ⟨m.entries.map (fun e => (e.1,f e.2)), by
    rw [List.map_map]
    exact m.nodup⟩

omit [DecidableEq K] in
@[simp] theorem keys_mapValues (m : OrderedMap K V) (f : V → V) :
    (m.mapValues f).keys = m.keys := by
  simp [keys,mapValues,Function.comp_def]

theorem get_mapValues (m : OrderedMap K V) (f : V → V) (k : K) :
    (m.mapValues f).get k = (m.get k).map f := by
  simp [get,mapValues,List.find?_map,Function.comp_def]

@[simp] theorem get_set_self (m : OrderedMap K V) (k : K) (v : V) :
    (m.set k v).get k = some v := by simp [get_set]

@[simp] theorem get_delete_self (m : OrderedMap K V) (k : K) : (m.delete k).get k = none := by
  simp [get_delete]

theorem get_set_ne (m : OrderedMap K V) {k j : K} (v : V) (h : j ≠ k) :
    (m.set k v).get j = m.get j := by simp [get_set,h]

theorem get_delete_ne (m : OrderedMap K V) {k j : K} (h : j ≠ k) :
    (m.delete k).get j = m.get j := by simp [get_delete,h]

theorem size_set_new {m : OrderedMap K V} {k : K} (v : V) (h : m.get k = none) :
    (m.set k v).size = m.size + 1 := by simp [size,entries_set_new v h]

theorem values_set_new {m : OrderedMap K V} {k : K} (v : V) (h : m.get k = none) :
    (m.set k v).values = m.values ++ [v] := by simp [values,entries_set_new v h]

theorem size_delete_le (m : OrderedMap K V) (k : K) : (m.delete k).size ≤ m.size := by
  simpa [size] using List.length_filter_le _ m.entries

theorem size_pos_of_get {m : OrderedMap K V} {k : K} {v : V} (h : m.get k = some v) :
    0 < m.size := List.length_pos_of_mem ((m.get_eq_some_iff k v).mp h)

theorem size_eq_zero_iff (m : OrderedMap K V) : m.size = 0 ↔ ∀ k, m.get k = none := by
  constructor
  · intro h k
    rw [size,List.length_eq_zero_iff] at h
    simp [get,h]
  · intro h
    rw [size,List.length_eq_zero_iff,List.eq_nil_iff_forall_not_mem]
    rintro ⟨k,v⟩ hm
    have := h k
    rw [(m.get_eq_some_iff k v).mpr hm] at this
    simp at this

end OrderedMap
