import ModuleGraph.Proofs.Access
import ModuleGraph.Proofs.Configuration.Derivation

/-! # Accesses along further edges

Deriving a configuration lifts a denial only between the two ends of an edge, and there the exports
of the target decide. No other verdict changes, and none is reached over an edge and what its target
reads.
-/

namespace ModuleGraph.Access

open ModuleGraph.Configuration

variable {c c' : Configuration} {requester target : ModuleRef} {package b : String} {stamp : Nat}
  {edges : List (String × String)}

theorem isReadableBy_withEdges (h : c.withEdges stamp edges = .ok c') :
    c'.isReadableBy requester b = true ↔ c.isReadableBy requester b = true ∨
      ∃ a, requester = .named a ∧ (a, b) ∈ edges ∧ a ≠ b := by
  cases requester with
  | unnamed k => simp [Configuration.isReadableBy]
  | named a => simp [Configuration.isReadableBy, doesRead_withEdges h]

/-- A target that is read stays so and exports what it exported. -/
theorem check_withEdges_of_readable (h : c.withEdges stamp edges = .ok c')
    (hc : check c requester target package ≠ .deniedNotReadable) :
    check c' requester target package = check c requester target package := by
  cases target with
  | unnamed k => rfl
  | named b =>
    by_cases hne : requester = .named b
    · simp [check, hne]
    · obtain ⟨-, hr⟩ := (check_ne_deniedNotReadable_iff hne).1 hc
      have hr' : c'.isReadableBy requester b = true := (isReadableBy_withEdges h).2 (.inl hr)
      exact check_named_congr (find?_withEdges h b) (hr'.trans hr.symm)

theorem check_withEdges_ne_iff (h : c.withEdges stamp edges = .ok c')
    (hc : check c requester target package = .deniedNotReadable) :
    check c' requester target package ≠ .deniedNotReadable ↔
      ∃ a b, requester = .named a ∧ target = .named b ∧ (a, b) ∈ edges := by
  cases target with
  | unnamed k =>
    refine iff_of_false (fun hn => hn hc) ?_
    rintro ⟨a, b, -, hb, -⟩
    cases hb
  | named b =>
    obtain ⟨hne, hb⟩ := check_eq_deniedNotReadable_iff.1 hc
    rw [check_ne_deniedNotReadable_iff hne, isVisible_withEdges h, isReadableBy_withEdges h]
    constructor
    · rintro ⟨hv, hr | ⟨a, ha, he, -⟩⟩
      · exact (hb ⟨hv, hr⟩).elim
      · exact ⟨a, b, ha, rfl, he⟩
    · rintro ⟨a, _, rfl, ⟨⟩, he⟩
      refine ⟨((withEdges_eq_ok_iff.1 h).1 (a, b) he).2, .inr ⟨a, rfl, he, ?_⟩⟩
      rintro rfl
      exact hne rfl

/-- A verdict other than unreadable stays. An unreadable target becomes readable only along an edge
to it from the requester, and then it is accessed as its exports tell. A module comes to read no
more than the edges say. -/
theorem check_withEdges (h : c.withEdges stamp edges = .ok c') (requester target : ModuleRef)
    (package : String) :
    (check c requester target package ≠ .deniedNotReadable →
      check c' requester target package = check c requester target package) ∧
    (check c requester target package = .deniedNotReadable →
      (check c' requester target package ≠ .deniedNotReadable →
        ∃ a b, requester = .named a ∧ target = .named b ∧ (a, b) ∈ edges) ∧
      ∀ a b, requester = .named a → target = .named b → (a, b) ∈ edges →
        ∃ d, c.find? b = some d ∧
          (check c' requester target package = .permitted ↔ d.ExportsTo package requester) ∧
          (check c' requester target package = .deniedNotExported ↔
            ¬ d.ExportsTo package requester)) ∧
    ∀ a b, c'.doesRead a b = true → c.doesRead a b = true ∨ (a, b) ∈ edges := by
  refine ⟨check_withEdges_of_readable h, fun hc => ⟨(check_withEdges_ne_iff h hc).1, ?_⟩, ?_⟩
  · rintro a b rfl rfl he
    have hn := (check_withEdges_ne_iff h hc).2 ⟨a, b, rfl, rfl, he⟩
    obtain ⟨hne, -⟩ := check_eq_deniedNotReadable_iff.1 hc
    obtain ⟨hv, hr⟩ := (check_ne_deniedNotReadable_iff hne).1 hn
    obtain ⟨d, hd⟩ := Option.isSome_iff_exists.1 hv
    exact ⟨d, find?_withEdges h b ▸ hd, check_of_isReadableBy hne hd hr⟩
  · intro a b hr
    exact ((doesRead_withEdges h).1 hr).imp id And.left

/-- The edge from `tools` to `core` opens what `core` exports to all, not what it exports to `app`,
and nothing to `shell`, which reads `tools` only. -/
theorem check_withEdges_loose :
    loose.withEdges 10 [("tools", "core"), ("shell", "shell"), ("shell", "tools"),
      ("tools", "core")] = .ok tied ∧
    check loose (.named "tools") (.named "core") "core.api" = .deniedNotReadable ∧
    check tied (.named "tools") (.named "core") "core.api" = .permitted ∧
    check tied (.named "tools") (.named "core") "core.spi" = .deniedNotExported ∧
    check tied (.named "shell") (.named "core") "core.api" = .deniedNotReadable ∧
    check tied (.unnamed 0) (.named "core") "core.api" = .permitted := by
  have hread : ∀ package, check loose (.named "tools") (.named "core") package =
      .deniedNotReadable := fun package => by rfl
  have hd : loose.find? "core" = some coreModule := by rfl
  have htools : ∀ package,
      (check tied (.named "tools") (.named "core") package = .permitted ↔
        coreModule.ExportsTo package (.named "tools")) ∧
      (check tied (.named "tools") (.named "core") package = .deniedNotExported ↔
        ¬ coreModule.ExportsTo package (.named "tools")) := by
    intro package
    obtain ⟨-, hc, -⟩ := check_withEdges withEdges_loose (.named "tools") (.named "core") package
    obtain ⟨d, hd', h⟩ := (hc (hread package)).2 "tools" "core" rfl rfl (by decide)
    obtain rfl := Option.some.inj (hd.symm.trans hd')
    exact h
  obtain ⟨-, hshell, -⟩ :=
    check_withEdges withEdges_loose (.named "shell") (.named "core") "core.api"
  obtain ⟨hunnamed, -⟩ := check_withEdges withEdges_loose (.unnamed 0) (.named "core") "core.api"
  refine ⟨withEdges_loose, hread _, (htools _).1.2 (.inl (by rfl)), (htools _).2.2 ?_, ?_, ?_⟩
  · rw [← any_admitsRef_iff]
    decide
  · by_contra hn
    obtain ⟨a, b, ha, hb, he⟩ := (hshell (by rfl)).1 hn
    cases ha
    cases hb
    exact absurd he (by decide)
  · rw [hunnamed (by decide)]
    decide

end ModuleGraph.Access
