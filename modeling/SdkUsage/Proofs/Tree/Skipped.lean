/-
What inference passes over. Classes and lambdas are skipped with all that is inside them, and of
functions all but their bodies. The rest of a module is what a run can come to, and no node is
both.
-/
import SdkUsage.Proofs.Tree.Side

namespace SdkUsage.Tree

variable {module : Module} {n : Node} {b : Bool}

/-- A node stands inside a class or a lambda, or in the signature of a function. The expressions
that are parts of a function are its decorators, the defaults and annotations of its parameters and
its return annotation (`FunctionDef.Part`); all else in it belongs to its body. -/
inductive Skipped (module : Module) : Node → Prop
  | inClass {d n} : .stmt (.classDef d) ∈ module.nodes → Node.Part n (.stmt (.classDef d)) →
    Skipped module n
  | inLambda {site params body n} : .expr (.lambda site params body) ∈ module.nodes →
    Node.Part n (.expr (.lambda site params body)) → Skipped module n
  | inSignature {d e} : .stmt (.functionDef d) ∈ module.nodes → FunctionDef.Part (.expr e) d →
    Skipped module (.expr e)
  | part {n whole} : Skipped module whole → Node.Part n whole → Skipped module n

/-- A run can come to a node: it stands in statements of the module or of a function that a run can
come to. -/
def Reached (module : Module) (n : Node) : Prop := Code [] module false n

namespace Reached

theorem mem_nodes (h : Reached module n) : n ∈ module.nodes := Code.mem_nodes h

theorem of_within (h : Within module.body n) : Reached module n := Code.of_within h

theorem of_body {d : Function} (hd : Reached module (.stmt (.functionDef d)))
    (h : Within d.body n) : Reached module n := by
  have side := Code.side hd
  rw [decide_eq_false List.not_mem_nil] at side
  exact side.code h

end Reached

theorem Skipped.mem_nodes (h : Skipped module n) : n ∈ module.nodes := by
  have part : ∀ {n whole : Node}, whole ∈ module.nodes → Node.Part n whole → n ∈ module.nodes :=
    fun hw hn => Module.mem_nodes_of_mem_preorder hw
      (Node.mem_preorder_of_part (Node.mem_preorder_self _) (Node.mem_children.2 hn))
  induction h with
  | inClass hd hn => exact part hd hn
  | inLambda hl hn => exact part hl hn
  | inSignature hd he => exact part hd (.ofStmt (.function he))
  | part _ hn ih => exact part ih hn

section Numbered

variable (hm : module.Numbered)

include hm

/-- A part of a node with a scope of its own is reached only as a statement of a function. -/
theorem Code.of_opensScope {whole : Node} (h : Code [] module b n) (hw : whole ∈ module.nodes)
    (ho : whole.opensScope = true) (hn : Node.Part n whole) :
    ∃ d t, whole = .stmt (.functionDef d) ∧ n = .stmt t := by
  cases h with
  | stmt ht => exact absurd hn (hm.not_part ht hw)
  | part hw' ho' hn' =>
    cases hm.parent_eq hw hw'.mem_nodes hn hn'
    rw [ho] at ho'
    cases ho'
  | body hd ht => exact ⟨_, _, hm.parent_eq hw hd.mem_nodes hn (part_of_mem_body ht), rfl⟩

/-- **No run comes to what is skipped.** -/
theorem Skipped.not_code (h : Skipped module n) : ¬ Code [] module b n := by
  induction h generalizing b with
  | inClass hd hn =>
    intro hc
    obtain ⟨_, _, ⟨⟩, _⟩ := hc.of_opensScope hm hd rfl hn
  | inLambda hl hn =>
    intro hc
    obtain ⟨_, _, ⟨⟩, _⟩ := hc.of_opensScope hm hl rfl hn
  | inSignature hd he =>
    intro hc
    obtain ⟨_, _, _, ⟨⟩⟩ := hc.of_opensScope hm hd rfl (.ofStmt (.function he))
  | part hw hn ih =>
    intro hc
    cases hc with
    | stmt ht => exact hm.not_part ht hw.mem_nodes hn
    | part hw' _ hn' =>
      cases hm.parent_eq hw.mem_nodes hw'.mem_nodes hn hn'
      exact ih hw'
    | body hd ht =>
      cases hm.parent_eq hw.mem_nodes hd.mem_nodes hn (part_of_mem_body ht)
      exact ih hd

theorem Reached.expr_ne {e e' : Expr} (h : Reached module (.expr e))
    (h' : Skipped module (.expr e')) : e.index ≠ e'.index := by
  intro hi
  cases hm.expr_eq h.mem_nodes h'.mem_nodes hi
  exact h'.not_code hm h

end Numbered

end SdkUsage.Tree
