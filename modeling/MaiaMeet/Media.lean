import Mathlib.Data.List.Nodup
set_option autoImplicit false

/-! Tracks and streams of the Media Capture API, as far as the client uses them. -/

namespace MaiaMeet

inductive Kind where
  | audio | video
  deriving DecidableEq, Repr

structure Track where
  id : Nat
  kind : Kind
  deriving DecidableEq, Repr

/-- The tracks of a MediaStream, oldest first. -/
abbrev Stream := List Track

namespace Stream

def ofKind (s : Stream) (k : Kind) : Option Track := s.find? (fun t => t.kind = k)
def removeTrack (s : Stream) (t : Track) : Stream := s.filter (· ≠ t)
def addTrack (s : Stream) (t : Track) : Stream := if t ∈ s then s else s ++ [t]

theorem mem_addTrack {s : Stream} {t u : Track} : t ∈ s.addTrack u ↔ t ∈ s ∨ t = u := by
  unfold addTrack
  split
  · rename_i hu
    exact ⟨.inl,fun h => h.elim id (fun he => he ▸ hu)⟩
  · simp

theorem mem_removeTrack {s : Stream} {t u : Track} : t ∈ s.removeTrack u ↔ t ∈ s ∧ t ≠ u := by
  simp [removeTrack]

def Single (s : Stream) : Prop := (s.map Track.kind).Nodup
  deriving Decidable

variable {s : Stream} {t : Track} {k : Kind}

theorem ofKind_eq_some (h : s.ofKind k = some t) : t ∈ s ∧ t.kind = k :=
  ⟨List.mem_of_find?_eq_some h,by simpa using List.find?_some h⟩

theorem ofKind_eq_none_iff : s.ofKind k = none ↔ ∀ t ∈ s, t.kind ≠ k := by
  simp [ofKind]

theorem Single.eq_of_kind (h : s.Single) {u : Track} (ht : t ∈ s) (hu : u ∈ s)
    (hk : t.kind = u.kind) : t = u := List.inj_on_of_nodup_map h ht hu hk

theorem ofKind_removeTrack_ne (h : t.kind ≠ k) : (s.removeTrack t).ofKind k = s.ofKind k := by
  simp only [ofKind,removeTrack,List.find?_filter]
  congr 1
  funext u
  by_cases hu : u.kind = k
  · have hne : u ≠ t := fun he => h (he ▸ hu)
    simp [hu,hne]
  · simp [hu]

theorem ofKind_removeTrack_self (h : s.Single) (ht : t ∈ s) :
    (s.removeTrack t).ofKind t.kind = none := by
  rw [ofKind_eq_none_iff]
  intro u hu hk
  obtain ⟨hu,hne⟩ := List.mem_filter.mp hu
  simp [h.eq_of_kind hu ht hk] at hne

theorem ofKind_addTrack_self (h : s.ofKind t.kind = none) :
    (s.addTrack t).ofKind t.kind = some t := by
  have hn : t ∉ s := fun ht => ofKind_eq_none_iff.mp h t ht rfl
  rw [addTrack,if_neg hn,ofKind,List.find?_append]
  rw [ofKind] at h
  simp [h]

theorem ofKind_addTrack_ne (h : t.kind ≠ k) : (s.addTrack t).ofKind k = s.ofKind k := by
  unfold addTrack
  split
  · rfl
  · simp [ofKind,List.find?_append,h]

theorem Single.removeTrack (h : s.Single) : (s.removeTrack t).Single :=
  List.Nodup.sublist (List.filter_sublist.map Track.kind) h

theorem Single.addTrack (h : s.Single) (hn : s.ofKind t.kind = none) :
    (s.addTrack t).Single := by
  have hk : ∀ u ∈ s, u.kind ≠ t.kind := ofKind_eq_none_iff.mp hn
  rw [Stream.addTrack,if_neg (fun ht => hk t ht rfl),Single,List.map_append]
  refine List.nodup_append.mpr ⟨h,List.nodup_singleton _,?_⟩
  intro a ha b hb hab
  obtain ⟨u,hu,rfl⟩ := List.mem_map.mp ha
  rw [List.map_singleton,List.mem_singleton] at hb
  exact hk u hu (hab.trans hb)

end Stream

end MaiaMeet
