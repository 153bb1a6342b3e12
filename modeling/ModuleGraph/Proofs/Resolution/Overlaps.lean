import Mathlib.Data.Prod.Lex
import Mathlib.Data.String.Basic
import Mathlib.Order.Bounds.Basic
import ModuleGraph.Proofs.Configuration.Lineage

/-! # The conflict and the overlaps that are told

The check of packages goes through modules by name and through the packages of each in order. It
stops at the first package with two owners, so that the conflict told is the least one, and tells
each overlap with a parent that comes before.
-/

namespace ModuleGraph

open ModuleGraph.Configuration

/-- A module owns a package that a module before it owns as well. -/
def Library.Repeats (modules : Library) (m p : String) : Prop :=
  modules.Owns m p ∧ ∃ n < m, modules.Owns n p

/-- The least module that repeats a package, the least package that it repeats and the one module
before it that owns this package. -/
structure Library.FirstConflict (modules : Library) (p first second : String) : Prop where
  isLeast_module : IsLeast {m | ∃ q, modules.Repeats m q} second
  isLeast_package : IsLeast {q | modules.Repeats second q} p
  eq_first_iff : ∀ n, n < second ∧ modules.Owns n p ↔ n = first

variable {parentOwner? : String → Option String} {modules : Library} {n p first second : String}
  {p' first' second' : String} {before after : List (String × String)} {o : Overlap}

theorem Library.FirstConflict.unique (h : modules.FirstConflict p first second)
    (h' : modules.FirstConflict p' first' second') :
    p = p' ∧ first = first' ∧ second = second' := by
  obtain rfl := h.isLeast_module.unique h'.isLeast_module
  obtain rfl := h.isLeast_package.unique h'.isLeast_package
  exact ⟨rfl, (h'.eq_first_iff first).1 ((h.eq_first_iff first).2 rfl), rfl⟩

/-- Ownerships are listed by module, and for each module by package. -/
theorem pairwise_ownerships (hn : modules.OwnNames) :
    (ownerships modules).Pairwise fun a b => toLex a < toLex b := by
  rw [ownerships, List.pairwise_flatMap, NameMap.values, List.pairwise_map]
  constructor
  · intro d _
    rw [List.pairwise_map]
    refine (NameMap.ascending_keys d.packages).imp fun hlt => ?_
    exact Prod.Lex.toLex_lt_toLex.2 (.inr ⟨rfl, hlt⟩)
  · refine modules.ascending.imp_of_mem fun {a b} ha hb hlt x hx y hy => ?_
    obtain ⟨q, -, rfl⟩ := List.mem_map.1 hx
    obtain ⟨q', -, rfl⟩ := List.mem_map.1 hy
    have ha' := hn a.1 a.2 (NameMap.get?_eq_some_iff.2 ha)
    have hb' := hn b.1 b.2 (NameMap.get?_eq_some_iff.2 hb)
    exact Prod.Lex.toLex_lt_toLex.2 (.inl (ha' ▸ hb' ▸ hlt))

/-- In an ascending list, what stands before an element is what is less than it. -/
theorem mem_before_iff {α β : Type} [Preorder β] {f : α → β} {l before after : List α} {a b : α}
    (h : l.Pairwise fun a b => f a < f b) (hl : l = before ++ a :: after) :
    b ∈ before ↔ b ∈ l ∧ f b < f a := by
  subst hl
  obtain ⟨-, ha, hb⟩ := List.pairwise_append.1 h
  constructor
  · intro hm
    exact ⟨List.mem_append_left _ hm, hb b hm a List.mem_cons_self⟩
  · rintro ⟨hm, hlt⟩
    rcases List.mem_append.1 hm with hm | hm
    · exact hm
    · rcases List.mem_cons.1 hm with rfl | hm
      · exact (lt_irrefl _ hlt).elim
      · exact (lt_asymm hlt ((List.pairwise_cons.1 ha).1 b hm)).elim

section Stop

variable (hn : modules.OwnNames)
  (hl : ownerships modules = before ++ (second, p) :: after)

include hn hl

theorem mem_before_stop_iff {m q : String} :
    (m, q) ∈ before ↔ modules.Owns m q ∧ toLex (m, q) < toLex (second, p) := by
  rw [← mem_ownerships_iff hn]
  exact mem_before_iff (pairwise_ownerships hn) hl

/-- No module repeats a package before the stop, since up to there no package has come twice. -/
theorem le_of_repeats {m q : String} (hb : (before.map (·.2)).Nodup)
    (h : modules.Repeats m q) : toLex (second, p) ≤ toLex (m, q) := by
  obtain ⟨hm, k, hlt, hk⟩ := h
  by_contra hle
  have hmb := (mem_before_stop_iff hn hl).2 ⟨hm, not_le.1 hle⟩
  have hkm : toLex (k, q) < toLex (m, q) := Prod.Lex.toLex_lt_toLex.2 (.inl hlt)
  have hkb := (mem_before_stop_iff hn hl).2 ⟨hk, hkm.trans (not_le.1 hle)⟩
  have he : (k, q) = (m, q) := List.inj_on_of_nodup_map hb hkb hmb rfl
  exact hlt.ne (congrArg Prod.fst he)

/-- The check stops at the first conflict. -/
theorem firstConflict_of_stop (hb : (before.map (·.2)).Nodup) (hf : (first, p) ∈ before) :
    modules.FirstConflict p first second := by
  obtain ⟨hfirst, hlt⟩ := (mem_before_stop_iff hn hl).1 hf
  have hlt : first < second := by simpa [Prod.Lex.toLex_lt_toLex] using hlt
  have hr : modules.Repeats second p :=
    ⟨(mem_ownerships_iff hn).1 (by simp [hl]), first, hlt, hfirst⟩
  refine ⟨⟨⟨p, hr⟩, ?_⟩, ⟨hr, ?_⟩, fun n => ⟨?_, ?_⟩⟩
  · rintro m ⟨q, h⟩
    rcases Prod.Lex.toLex_le_toLex.1 (le_of_repeats hn hl hb h) with h | h
    · exact h.le
    · exact h.1.le
  · intro q h
    simpa [Prod.Lex.toLex_le_toLex] using le_of_repeats hn hl hb h
  · rintro ⟨hns, hnp⟩
    have hm := (mem_before_stop_iff hn hl).2 ⟨hnp, Prod.Lex.toLex_lt_toLex.2 (.inl hns)⟩
    exact congrArg Prod.fst (List.inj_on_of_nodup_map hb hm hf rfl)
  · rintro rfl
    exact ⟨hlt, hfirst⟩

end Stop

theorem Library.FirstConflict.not_nodup (hn : modules.OwnNames)
    (h : modules.FirstConflict p first second) : ¬ ((ownerships modules).map (·.2)).Nodup := by
  intro hd
  obtain ⟨hlt, hf⟩ := (h.eq_first_iff first).2 rfl
  have hs := (mem_ownerships_iff hn).2 h.isLeast_package.1.1
  have he := List.inj_on_of_nodup_map hd ((mem_ownerships_iff hn).2 hf) hs rfl
  exact hlt.ne (congrArg Prod.fst he)

theorem mem_filterMap_overlap {l : List (String × String)} :
    o ∈ l.filterMap (Overlap.of? parentOwner?) ↔
      (o.owner, o.package) ∈ l ∧ parentOwner? o.package = some o.parentOwner := by
  rw [List.mem_filterMap]
  constructor
  · rintro ⟨⟨m, q⟩, hm, h⟩
    obtain ⟨k, hk, rfl⟩ := Option.map_eq_some_iff.1 h
    exact ⟨hm, hk⟩
  · rintro ⟨hm, hk⟩
    exact ⟨_, hm, Option.map_eq_some_iff.2 ⟨_, hk, rfl⟩⟩

theorem snd_checkPackages_eq_some_iff (hn : modules.OwnNames)
    {e : ResolutionError} : (checkPackages parentOwner? modules).2 = some e ↔
      ∃ p first second, e = .namespaceConflict p first second ∧
        modules.FirstConflict p first second := by
  have hc := checked_checkPackages parentOwner? modules
  generalize checkPackages parentOwner? modules = r at hc
  cases hc with
  | passes hd =>
    refine iff_of_false nofun ?_
    rintro ⟨p, first, second, -, h⟩
    exact h.not_nodup hn hd
  | stops hl hb hf =>
    have h := firstConflict_of_stop hn hl hb hf
    rw [Option.some.injEq]
    constructor
    · rintro rfl
      exact ⟨_, _, _, rfl, h⟩
    · rintro ⟨p', first', second', rfl, h'⟩
      obtain ⟨rfl, rfl, rfl⟩ := h.unique h'
      rfl

theorem mem_overlaps_iff (hn : modules.OwnNames) :
    o ∈ (checkPackages parentOwner? modules).1 ↔
      modules.Owns o.owner o.package ∧ parentOwner? o.package = some o.parentOwner ∧
        ∀ p first second, modules.FirstConflict p first second →
          toLex (o.owner, o.package) < toLex (second, p) := by
  have hc := checked_checkPackages parentOwner? modules
  generalize checkPackages parentOwner? modules = r at hc
  cases hc with
  | passes hd =>
    rw [mem_filterMap_overlap, mem_ownerships_iff hn]
    refine and_congr_right fun _ => (and_iff_left ?_).symm
    exact fun p first second h => (h.not_nodup hn hd).elim
  | stops hl hb hf =>
    have h := firstConflict_of_stop hn hl hb hf
    rw [mem_filterMap_overlap, mem_before_stop_iff hn hl]
    constructor
    · rintro ⟨⟨ho, hlt⟩, hp⟩
      refine ⟨ho, hp, fun p' first' second' h' => ?_⟩
      obtain ⟨rfl, rfl, rfl⟩ := h.unique h'
      exact hlt
    · rintro ⟨ho, hp, hlt⟩
      exact ⟨⟨ho, hlt _ _ _ h⟩, hp⟩

theorem pairwise_overlaps (hn : modules.OwnNames) :
    (checkPackages parentOwner? modules).1.Pairwise fun a b =>
      toLex (a.owner, a.package) < toLex (b.owner, b.package) := by
  have hpair : ∀ l : List (String × String), (l.Pairwise fun a b => toLex a < toLex b) →
      (l.filterMap (Overlap.of? parentOwner?)).Pairwise fun a b =>
        toLex (a.owner, a.package) < toLex (b.owner, b.package) := by
    intro l hl
    rw [List.pairwise_filterMap]
    refine hl.imp fun {a b} hlt x hx y hy => ?_
    obtain ⟨_, -, rfl⟩ := Option.map_eq_some_iff.1 hx
    obtain ⟨_, -, rfl⟩ := Option.map_eq_some_iff.1 hy
    exact hlt
  have hl := pairwise_ownerships hn
  have hc := checked_checkPackages parentOwner? modules
  generalize checkPackages parentOwner? modules = r at hc
  cases hc with
  | passes => exact hpair _ hl
  | stops he => exact hpair _ (hl.sublist (he ▸ List.sublist_append_left ..))

/-- The check fails exactly if two modules own a package together, and then tells the first such
conflict. It tells, by module and by package, each overlap with the parents that comes before, with
the first owner in the order of lookups. -/
theorem checkPackages_exact {r : Resolver} (hr : ∀ q ∈ r.parents, q.Reachable)
    (hn : ∀ n d, modules.get? n = some d → d.name = n) :
    ((∃ e, (checkPackages r.parentOwner? modules).2 = some e) ↔
      ∃ p n m, modules.Conflict p n m) ∧
    (∀ e, (checkPackages r.parentOwner? modules).2 = some e ↔
      ∃ p first second, e = .namespaceConflict p first second ∧
        modules.FirstConflict p first second) ∧
    ((checkPackages r.parentOwner? modules).1.Pairwise fun a b =>
      toLex (a.owner, a.package) < toLex (b.owner, b.package)) ∧
    ∀ o, o ∈ (checkPackages r.parentOwner? modules).1 ↔ modules.Owns o.owner o.package ∧
      FirstOwner (lineageAll r.parents) o.package o.parentOwner ∧
        ∀ p first second, modules.FirstConflict p first second →
          toLex (o.owner, o.package) < toLex (second, p) := by
  refine ⟨?_, fun e => snd_checkPackages_eq_some_iff hn, pairwise_overlaps hn, fun o => ?_⟩
  · rw [← Option.ne_none_iff_exists', Ne, snd_checkPackages_eq_none_iff]
    simp only [not_forall, not_not]
  · rw [mem_overlaps_iff hn, Resolver.parentOwner?_eq_some_iff hr]

def leftModule : Descriptor where
  name := "left"
  requires := ∅
  exports := .ofList [("core.api", .unqualified)]
  concealed := .ofList ["common"]

def rightModule : Descriptor where
  name := "right"
  requires := ∅
  exports := .ofList [("common", .unqualified), ("core.spi", .unqualified)]
  concealed := ∅

def leftAndRight : Library := .ofList [("left", leftModule), ("right", rightModule)]

theorem checkPackages_leftAndRight :
    (∀ q ∈ [core], q.Reachable) ∧ (∀ n d, leftAndRight.get? n = some d → d.name = n) ∧
      checkPackages (Resolver.parentOwner? ⟨.empty, .empty, [core]⟩) leftAndRight =
        ([⟨"core.api", "left", "core"⟩], some (.namespaceConflict "common" "left" "right")) ∧
      leftAndRight.FirstConflict "common" "left" "right" ∧
      FirstOwner (lineageAll [core]) "core.api" "core" := by
  have hr : ∀ q ∈ [core], q.Reachable := by simpa using stacked_core.reachable
  have hn : ∀ n d, leftAndRight.get? n = some d → d.name = n := by
    intro n d hd
    have he : leftAndRight.entries = [("left", leftModule), ("right", rightModule)] := by decide
    rw [NameMap.get?_eq_some_iff, he] at hd
    simp only [List.mem_cons, Prod.mk.injEq, List.not_mem_nil, or_false] at hd
    rcases hd with ⟨rfl, rfl⟩ | ⟨rfl, rfl⟩ <;> rfl
  have hc : checkPackages (Resolver.parentOwner? ⟨.empty, .empty, [core]⟩) leftAndRight =
      ([⟨"core.api", "left", "core"⟩], some (.namespaceConflict "common" "left" "right")) := by
    decide
  obtain ⟨-, hs, -, ho⟩ := checkPackages_exact (r := ⟨.empty, .empty, [core]⟩) hr hn
  obtain ⟨p, a, b, he, hf⟩ := (hs _).1 (congrArg Prod.snd hc)
  cases he
  have hm := (ho ⟨"core.api", "left", "core"⟩).1 (by rw [hc]; exact List.mem_singleton_self _)
  exact ⟨hr, hn, hc, hf, hm.2.1⟩

end ModuleGraph
