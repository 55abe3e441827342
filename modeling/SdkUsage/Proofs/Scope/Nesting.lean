/-
The scope of a function stands in the scope of the statements that define it: in
the module's, or in that of the function around it.
-/
import SdkUsage.Proofs.Scope.Distinct

namespace SdkUsage

open SdkUsage.Tree

namespace SymbolTable

variable {module : Module}

/-- The scope of a function is opened where the acts of the function stand, in the
scope that is current there. -/
theorem FunctionScope.opened (hm : module.Numbered) {d : Function} {scope : Scope}
    (hs : FunctionScope (build module) d scope) {before after : List Act}
    (hsplit : module.acts = before ++ .enter d.name.text .function ::
      (d.innerActs ++ .leave (some d.site.index) :: after)) :
    scope.id = (ScopeBuilder.runAll {} before).table.scopes.length ∧
      scope.parent = some (ScopeBuilder.runAll {} before).current := by
  have sound := ScopeBuilder.sound_start.runAll before
  obtain ⟨marked, opened, found, parent, -⟩ :=
    ScopeBuilder.runAll_scope sound rfl d.closed_innerActs (Module.marks_once hm hsplit)
  rw [← ScopeBuilder.runAll_append, ← hsplit] at marked found
  have id := Option.some.inj (hs.marked.symm.trans marked)
  obtain ⟨_, found', kept⟩ := (build_extends (List.append_nil module.acts).symm).scope found
  rw [← id] at found'
  cases hs.found.symm.trans found'
  exact ⟨id, kept.parent.trans parent⟩

/-- **A function of the module stands in the module's scope.** -/
theorem FunctionScope.parent_root (hm : module.Numbered) {d : Function} {scope : Scope}
    (hs : FunctionScope (build module) d scope)
    (hd : Within module.body (.stmt (.functionDef d))) : scope.parent = some root := by
  obtain ⟨role, before, after, hacts, closed⟩ := hd.acts_split
  obtain ⟨outer, houter, hd⟩ := d.acts_eq role
  have hsplit : module.acts = (before ++ outer) ++ .enter d.name.text .function ::
      (d.innerActs ++ .leave (some d.site.index) :: after) := by
    change actsOf module.body = _
    rw [hacts, hd]
    simp only [List.append_assoc, List.cons_append, List.nil_append]
  rw [(hs.opened hm hsplit).2, (ScopeBuilder.runAll_closed (closed.append houter) {}).1]

/-- **A function inside another stands in the scope of that one.** -/
theorem FunctionScope.parent_function (hm : module.Numbered) {d d' : Function}
    {scope scope' : Scope} (hs : FunctionScope (build module) d scope)
    (hs' : FunctionScope (build module) d' scope') (hd : .stmt (.functionDef d) ∈ module.nodes)
    (hd' : Within d.body (.stmt (.functionDef d'))) : scope'.parent = some scope.id := by
  obtain ⟨role, before, after, hacts⟩ := Module.acts_split hd
  obtain ⟨outer, -, hd⟩ := d.acts_eq role
  obtain ⟨role', before', after', hacts', closed'⟩ := hd'.acts_split
  obtain ⟨outer', houter', hd'⟩ := d'.acts_eq role'
  have hsplit : module.acts = (before ++ outer) ++ .enter d.name.text .function ::
      (d.innerActs ++ .leave (some d.site.index) :: after) := by
    rw [hacts, hd]
    simp only [List.append_assoc, List.cons_append, List.nil_append]
  -- Inside the function around it, what comes before opens no scope that stays open.
  let inside := d.params.uses.flatMap stepActs ++ (before' ++ outer')
  have closed : Closed inside := d.closed_params.append (closed'.append houter')
  have hsplit' : module.acts = ((before ++ outer) ++ .enter d.name.text .function :: inside) ++
      .enter d'.name.text .function :: (d'.innerActs ++ .leave (some d'.site.index) ::
        (after' ++ .leave (some d.site.index) :: after)) := by
    rw [hsplit, FunctionDef.innerActs, hacts', hd']
    simp only [inside, List.append_assoc, List.cons_append, List.nil_append]
  rw [(hs'.opened hm hsplit').2, (hs.opened hm hsplit).1, ScopeBuilder.runAll_append,
    ScopeBuilder.runAll_cons, (ScopeBuilder.runAll_closed closed _).1]
  rfl

end SymbolTable

end SdkUsage
