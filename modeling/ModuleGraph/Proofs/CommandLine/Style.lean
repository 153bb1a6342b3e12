import ModuleGraph.CommandLine.Style

/-! # Spans as written

Spans are written one after the other, and those without a role as they are.
-/

namespace ModuleGraph.CommandLine

def bold (colored : Bool) (color : String) (t : String) : String :=
  if colored then "\x1b[0m\x1b[1m" ++ color ++ t ++ "\x1b[0m" else t

variable {α : Type} {colored : Bool} {s : Span} {ss ts : List Span}

theorem render_success (t : String) :
    (⟨.success, t⟩ : Span).render colored = bold colored "\x1b[32m" t := by
  cases colored <;> rfl

theorem render_failure (t : String) :
    (⟨.failure, t⟩ : Span).render colored = bold colored "\x1b[31m" t := by
  cases colored <;> rfl

theorem render_heading (t : String) :
    (⟨.heading, t⟩ : Span).render colored = bold colored "" t := by
  cases colored <;> rfl

@[simp] theorem render_plain (t : String) : (plain t).render colored = t := by
  simp [plain, Span.render]

@[simp] theorem render_nil : render colored [] = "" := rfl

@[simp] theorem render_cons : render colored (s :: ss) = s.render colored ++ render colored ss := by
  rw [render, List.map_cons, String.join_cons, render]

theorem render_append :
    render colored (ss ++ ts) = render colored ss ++ render colored ts := by
  rw [render, List.map_append, String.join_append, render, render]

theorem render_flatMap (f : α → List Span) (l : List α) :
    render colored (l.flatMap f) = String.join (l.map fun a => render colored (f a)) := by
  induction l with
  | nil => rfl
  | cons a l ih => rw [List.flatMap_cons, render_append, ih, List.map_cons, String.join_cons]

theorem render_commas (n : String) (ns : List String) :
    n ++ render colored (ns.flatMap fun n => [plain ", ", plain n]) =
      ", ".intercalate (n :: ns) := by
  induction ns generalizing n with
  | nil => simp
  | cons k ns ih =>
    rw [String.intercalate_cons_cons, ← ih, List.flatMap_cons, render_append]
    simp [String.append_assoc]

end ModuleGraph.CommandLine
