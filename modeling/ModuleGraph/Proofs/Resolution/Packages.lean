import Mathlib.Data.List.Nodup
import Mathlib.Data.List.Pairwise
import ModuleGraph.Configuration
import ModuleGraph.Proofs.Finder.Library
import ModuleGraph.Resolution.Packages

/-! # Conflicts over packages

The check of packages finds a conflict exactly if two modules own a package together. Where it
finds none, the owner on record of a package is the one module that owns it.
-/

namespace ModuleGraph

def Library.Conflict (modules : Library) (p n m : String) : Prop :=
  n ≠ m ∧ ∃ d e, modules.get? n = some d ∧ modules.get? m = some e ∧
    d.owns p = true ∧ e.owns p = true

def Library.Owns (modules : Library) (n p : String) : Prop :=
  ∃ d, modules.get? n = some d ∧ d.owns p = true

/-- The overlap of an ownership with the parents, if there is one. -/
def Overlap.of? (parentOwner? : String → Option String) (e : String × String) : Option Overlap :=
  (parentOwner? e.2).map fun m => ⟨e.2, e.1, m⟩

/-- The two ways in which a check of ownerships ends. Of those gone through, each is of another
package; the one that it stops at is of the package of one before. -/
inductive Checked (parentOwner? : String → Option String) (l : List (String × String)) :
    List Overlap × Option ResolutionError → Prop
  | passes : (l.map (·.2)).Nodup →
      Checked parentOwner? l (l.filterMap (Overlap.of? parentOwner?), none)
  | stops {before after : List (String × String)} {p first second : String} :
      l = before ++ (second, p) :: after → (before.map (·.2)).Nodup → (first, p) ∈ before →
      Checked parentOwner? l (before.filterMap (Overlap.of? parentOwner?),
        some (.namespaceConflict p first second))

variable {parentOwner? : String → Option String} {owners : NameMap String}
  {l : List (String × String)} {modules : Library} {d : Descriptor} {p : String}

theorem Descriptor.mem_packages : p ∈ d.packages ↔ d.owns p = true := by
  simp [packages, owns, NameMap.mem_union]

theorem checkOwnerships_cons (n p : String) (l : List (String × String)) :
    checkOwnerships parentOwner? owners ((n, p) :: l) =
      match owners.get? p with
      | some first => ([], some (.namespaceConflict p first n))
      | none =>
        let rest := checkOwnerships parentOwner? (owners.insert p n) l
        ((Overlap.of? parentOwner? (n, p)).toList ++ rest.1, rest.2) := by
  rw [checkOwnerships, Overlap.of?]
  cases owners.get? p with
  | some first => rfl
  | none => cases parentOwner? p <;> rfl

/-- Where the owners so far are those of the ownerships gone through, each of another package. -/
theorem checked_checkOwnerships {done : List (String × String)} (hn : (done.map (·.2)).Nodup)
    (ho : ∀ n p, owners.get? p = some n ↔ (n, p) ∈ done) :
    Checked parentOwner? (done ++ l) (done.filterMap (Overlap.of? parentOwner?) ++
      (checkOwnerships parentOwner? owners l).1, (checkOwnerships parentOwner? owners l).2) := by
  induction l generalizing owners done with
  | nil => simpa [checkOwnerships] using Checked.passes hn
  | cons e l ih =>
    obtain ⟨n, p⟩ := e
    rw [checkOwnerships_cons]
    cases hp : owners.get? p with
    | some first =>
      rw [List.append_nil]
      exact .stops rfl hn ((ho first p).1 hp)
    | none =>
      have hd : p ∉ done.map (·.2) := by
        intro hm
        obtain ⟨⟨m, q⟩, hd, rfl⟩ := List.mem_map.1 hm
        cases hp.symm.trans ((ho m q).2 hd)
      have hn' : ((done ++ [(n, p)]).map (·.2)).Nodup := by
        rw [List.map_append]
        simpa using hn.concat hd
      have ho' : ∀ m q, (owners.insert p n).get? q = some m ↔ (m, q) ∈ done ++ [(n, p)] := by
        intro m q
        rw [NameMap.get?_insert, List.mem_append, List.mem_singleton, Prod.mk.injEq, ← ho]
        grind
      have hr := ih hn' ho'
      have hf : [(n, p)].filterMap (Overlap.of? parentOwner?) =
          (Overlap.of? parentOwner? (n, p)).toList := by
        cases h : Overlap.of? parentOwner? (n, p) <;> simp [h]
      rwa [List.filterMap_append, hf, List.append_assoc, List.append_assoc] at hr

theorem checked_checkPackages (parentOwner? : String → Option String) (modules : Library) :
    Checked parentOwner? (ownerships modules) (checkPackages parentOwner? modules) := by
  have hn : (([] : List (String × String)).map (·.2)).Nodup := .nil
  exact checked_checkOwnerships hn (by simp)

theorem eq_namespaceConflict {e : ResolutionError}
    (h : (checkPackages parentOwner? modules).2 = some e) :
    ∃ p n m, e = .namespaceConflict p n m := by
  have hc := checked_checkPackages parentOwner? modules
  generalize checkPackages parentOwner? modules = r at h hc
  cases hc with
  | passes => cases h
  | @stops _ _ p first second => exact ⟨p, first, second, (Option.some.inj h).symm⟩

/-- Where modules stand under their own names, the ownerships are those of all modules. -/
theorem mem_ownerships_iff {n : String} (hn : modules.OwnNames) :
    (n, p) ∈ ownerships modules ↔ modules.Owns n p := by
  simp only [ownerships, List.mem_flatMap, List.mem_map, NameMap.mem_values, NameSet.mem_toList,
    Descriptor.mem_packages, Prod.mk.injEq]
  constructor
  · rintro ⟨d, ⟨m, hm⟩, q, hq, rfl, rfl⟩
    exact ⟨d, hn m d hm ▸ hm, hq⟩
  · rintro ⟨d, hd, hp⟩
    exact ⟨d, ⟨n, hd⟩, p, hp, hn n d hd, rfl⟩

theorem nodup_ownerships_iff :
    ((ownerships modules).map (·.2)).Nodup ↔ ∀ p n m, ¬ modules.Conflict p n m := by
  have he : (ownerships modules).map (·.2) =
      modules.values.flatMap fun d => d.packages.toList := by
    simp [ownerships, List.map_flatMap, Function.comp_def]
  rw [he, List.nodup_flatMap, NameMap.values, List.pairwise_map]
  constructor
  · rintro ⟨-, h⟩ p n m ⟨hne, d, e, hd, he, hp, hq⟩
    have : Std.Symm fun a b : String × Descriptor =>
        a.2.packages.toList.Disjoint b.2.packages.toList := ⟨fun _ _ => List.disjoint_symm⟩
    have hs : d.packages.toList.Disjoint e.packages.toList :=
      List.Pairwise.forall h (NameMap.get?_eq_some_iff.1 hd) (NameMap.get?_eq_some_iff.1 he)
        (fun h => hne (congrArg Prod.fst h))
    exact hs (NameSet.mem_toList.2 (Descriptor.mem_packages.2 hp))
      (NameSet.mem_toList.2 (Descriptor.mem_packages.2 hq))
  · intro h
    refine ⟨fun d _ => NameSet.nodup_toList _, modules.ascending.imp_of_mem ?_⟩
    intro a b ha hb hlt p hp hq
    refine h p a.1 b.1 ⟨fun he => String.lt_irrefl b.1 (he ▸ hlt), a.2, b.2,
      NameMap.get?_eq_some_iff.2 ha, NameMap.get?_eq_some_iff.2 hb, ?_, ?_⟩
    · exact Descriptor.mem_packages.1 (NameSet.mem_toList.1 hp)
    · exact Descriptor.mem_packages.1 (NameSet.mem_toList.1 hq)

theorem snd_checkPackages_eq_none_iff :
    (checkPackages parentOwner? modules).2 = none ↔ ∀ p n m, ¬ modules.Conflict p n m := by
  rw [← nodup_ownerships_iff]
  have hc := checked_checkPackages parentOwner? modules
  generalize checkPackages parentOwner? modules = r at hc
  cases hc with
  | passes hn => exact iff_of_true rfl hn
  | stops hl _ hf =>
    refine iff_of_false nofun fun hn => ?_
    rw [hl, List.map_append, List.nodup_append] at hn
    exact hn.2.2 _ (List.mem_map_of_mem hf) _ (by simp) rfl

/-- The owners on record are those of all packages of the modules, if no package has two. -/
theorem get?_indexPackages_iff {n : String} (hn : modules.OwnNames)
    (hc : ∀ p n m, ¬ modules.Conflict p n m) :
    (Configuration.indexPackages modules).get? p = some n ↔
      ∃ d, modules.get? n = some d ∧ d.owns p = true := by
  have hi : Configuration.indexPackages modules =
      .ofList ((ownerships modules).map fun e => (e.2, e.1)) := by
    simp [Configuration.indexPackages, NameMap.ofList, ownerships, List.foldl_map,
      List.foldl_flatMap]
  have hd : (((ownerships modules).map fun e => (e.2, e.1)).map (·.1)).Nodup := by
    rw [List.map_map]
    exact nodup_ownerships_iff.2 hc
  rw [hi, NameMap.get?_ofList_iff hd]
  refine Iff.trans ?_ (mem_ownerships_iff hn)
  simp [and_comm]

end ModuleGraph
