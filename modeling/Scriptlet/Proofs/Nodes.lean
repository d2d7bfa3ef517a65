import Scriptlet.Tree

/-! Different programs have different nodes: a node names the form of its tree, and its other fields
hold all that the tree is built of. So what is proved of the tree that is read also tells the node
that is run, saved and shown. -/
namespace Scriptlet

mutual

theorem Expr.toNode_inj : ∀ e e' : Expr, e.toNode = e'.toNode → e = e'
  | .string value line, e', h => by
    cases e' with
    | string value' line' => simpa [toNode] using h
    | _ => simp [toNode] at h
  | .number value line, e', h => by
    cases e' with
    | number value' line' => simpa [toNode] using h
    | _ => simp [toNode] at h
  | .var name line, e', h => by
    cases e' with
    | var name' line' => simpa [toNode] using h
    | _ => simp [toNode] at h
  | .call name arguments line, e', h => by
    cases e' with
    | call name' arguments' line' =>
      have hfields : name = name' ∧ toNodes arguments = toNodes arguments' ∧ line = line' := by
        simpa [toNode] using h
      rw [hfields.1, toNodes_inj _ _ hfields.2.1, hfields.2.2]
    | _ => simp [toNode] at h
  | .sum left right line, e', h => by
    cases e' with
    | sum left' right' line' =>
      have hfields : left.toNode = left'.toNode ∧ right.toNode = right'.toNode ∧ line = line' := by
        simpa [toNode] using h
      rw [toNode_inj _ _ hfields.1, toNode_inj _ _ hfields.2.1, hfields.2.2]
    | _ => simp [toNode] at h

theorem Expr.toNodes_inj : ∀ es es' : List Expr, toNodes es = toNodes es' → es = es'
  | [], es', h => by
    cases es' with
    | nil => rfl
    | cons e' rest' => simp [toNodes] at h
  | e :: rest, es', h => by
    cases es' with
    | nil => simp [toNodes] at h
    | cons e' rest' =>
      have hboth : e.toNode = e'.toNode ∧ toNodes rest = toNodes rest' := by
        simpa [toNodes] using h
      rw [toNode_inj _ _ hboth.1, toNodes_inj _ _ hboth.2]

end

theorem Stmt.toNode_injective : Function.Injective Stmt.toNode := by
  intro s s' h
  cases s with
  | assign name value line =>
    cases s' with
    | assign name' value' line' =>
      have hfields : name = name' ∧ value.toNode = value'.toNode ∧ line = line' := by
        simpa [toNode] using h
      rw [hfields.1, Expr.toNode_inj _ _ hfields.2.1, hfields.2.2]
    | _ => simp [toNode] at h
  | print expression newline line =>
    cases s' with
    | print expression' newline' line' =>
      have hfields : expression.toNode = expression'.toNode ∧ newline = newline' ∧
          line = line' := by
        simpa [toNode] using h
      rw [Expr.toNode_inj _ _ hfields.1, hfields.2.1, hfields.2.2]
    | _ => simp [toNode] at h
  | call name arguments =>
    cases s' with
    | call name' arguments' =>
      have hfields : name = name' ∧ Expr.toNodes arguments = Expr.toNodes arguments' := by
        simpa [toNode] using h
      rw [hfields.1, Expr.toNodes_inj _ _ hfields.2]
    | _ => simp [toNode] at h

theorem Stmt.blockNode_injective : Function.Injective Stmt.blockNode := by
  intro body body' h
  exact (List.map_inj_right toNode_injective).mp (Value.list.inj h)

theorem Decl.toNode_injective : Function.Injective Decl.toNode := by
  intro d d' h
  cases d with
  | function name params body =>
    cases d' with
    | function name' params' body' =>
      have hfields : name = name' ∧ params = params' ∧
          Stmt.blockNode body = Stmt.blockNode body' := by
        simpa [toNode] using h
      rw [hfields.1, hfields.2.1, Stmt.blockNode_injective hfields.2.2]
    | entry body' => simp [toNode] at h
  | entry body =>
    cases d' with
    | function name' params' body' => simp [toNode] at h
    | entry body' =>
      have hbody : Stmt.blockNode body = Stmt.blockNode body' := by
        simpa [toNode] using h
      rw [Stmt.blockNode_injective hbody]

/-- The node of a program tells all of it. -/
theorem Program.toNode_injective : Function.Injective Program.toNode := by
  rintro ⟨body⟩ ⟨body'⟩ h
  have hnodes : body.map Decl.toNode = body'.map Decl.toNode := by
    simpa [toNode] using h
  rw [(List.map_inj_right Decl.toNode_injective).mp hnodes]

end Scriptlet
