import LadderDiagram.Proofs.Snapshot.Form

/-!
# What is written is a presentation

The document that a program is written as presents the program (`Program.presents_toValue`), and
its text without white space spells it (`Value.spells_compact`).
-/

namespace LadderDiagram

namespace Json

/-! ## Text without white space -/

theorem Spaced.tight (ls : List String) : Spaced ls (ls.flatMap String.toList) := by
  induction ls with
  | nil => exact .done nofun
  | cons l ls ih => exact .next (w := []) nofun ih

theorem flatMap_intercalate (sep : String) (lss : List (List String)) :
    ([sep].intercalate lss).flatMap String.toList =
      sep.toList.intercalate (lss.map (·.flatMap String.toList)) := by
  induction lss with
  | nil => rfl
  | cons ls lss ih =>
    cases lss with
    | nil => simp
    | cons ls' lss =>
      rw [List.map_cons] at ih
      rw [List.map_cons, List.map_cons, List.intercalate_cons_cons, List.intercalate_cons_cons,
        ← ih]
      simp

namespace Value

mutual

theorem toList_compact (v : Value) : v.compact.toList = v.lexemes.flatMap String.toList := by
  cases v with
  | null | boolean _ | natural _ | real _ | text _ => simp [lexemes]
  | list items =>
    rw [compact, lexemes]
    simp only [String.toList_append, String.toList_intercalate, map_compactItems items,
      List.flatMap_cons, List.flatMap_append, flatMap_intercalate, List.flatMap_nil,
      List.append_nil, List.append_assoc]
  | object members =>
    rw [compact, lexemes]
    simp only [String.toList_append, String.toList_intercalate, map_compactMembers members,
      List.flatMap_cons, List.flatMap_append, flatMap_intercalate, List.flatMap_nil,
      List.append_nil, List.append_assoc]

theorem map_compactItems (items : List Value) :
    (compactItems items).map String.toList =
      (itemLexemes items).map (·.flatMap String.toList) := by
  match items with
  | [] => rfl
  | v :: rest =>
    rw [compactItems, itemLexemes, List.map_cons, List.map_cons, toList_compact v,
      map_compactItems rest]

theorem map_compactMembers (members : List (String × Value)) :
    (compactMembers members).map String.toList =
      (memberLexemes members).map (·.flatMap String.toList) := by
  match members with
  | [] => rfl
  | (key, v) :: rest =>
    rw [compactMembers, memberLexemes, List.map_cons, List.map_cons, map_compactMembers rest]
    simp [toList_compact v]

end

theorem spells_compact (v : Value) : v.Spells v.compact := by
  rw [Spells, toList_compact]
  exact .tight v.lexemes

end Value

/-! ## Documents as they are written -/

/-- The form admits every value as it is written. -/
def Form.Admits {α : Type} (form : Form) (toValue : α → Value) : Prop :=
  ∀ a, form (toValue a) (toValue a)

/-- Members that stand in the order of the known ones, each in its form. -/
def Aligned (ks : List Known) (ms : List (String × Value)) : Prop :=
  List.Forall₂ (fun k m => k.name = m.1 ∧ k.form m.2 m.2) ks ms

theorem Aligned.shown {ks : List Known} {ms : List (String × Value)} (h : Aligned ks ms) :
    Shown ks ms ms := by
  induction h with
  | nil => exact .nil
  | @cons k m _ _ hm _ ih =>
    obtain ⟨name, v⟩ := m
    obtain ⟨rfl, hf⟩ := hm
    exact .keep hf ih

theorem mixed_self (known : List String) (ms : List (String × Value)) : Mixed known ms ms :=
  ⟨[], by rw [List.append_nil], nofun⟩

namespace Form

theorem record_self {ks : List Known} {ms : List (String × Value)} (h : Aligned ks ms) :
    record ks (.object ms) (.object ms) :=
  ⟨ms, ms, ms, rfl, rfl, h.shown, mixed_self _ ms⟩

theorem tagged_self {tag kind : String} {known : String → List Known}
    {ms : List (String × Value)} (h : Aligned (known kind) ms) :
    tagged tag known (.object ((tag, .text kind) :: ms)) (.object ((tag, .text kind) :: ms)) :=
  ⟨kind, ms, ms, _, rfl, rfl, h.shown, mixed_self _ _⟩

variable {α : Type} {form : Form} {toValue : α → Value}

theorem Admits.optional (h : form.Admits toValue) (hne : ∀ a, toValue a ≠ .null) :
    Admits (.optional form) (.ofOption toValue) := by
  rintro (_ | a)
  · exact .inl ⟨rfl, rfl⟩
  · exact .inr ⟨hne a, h a⟩

theorem Admits.list (h : form.Admits toValue) :
    Admits (.list form) fun as : List α => .list (as.map toValue) := fun _ =>
  ⟨_, _, rfl, rfl, List.forall₂_same.2 (List.forall_mem_map.2 fun a _ => h a)⟩

end Form

end Json

open Json

theorem Point.form_admits : Point.form.Admits Point.toValue := fun _ =>
  Form.record_self (.cons ⟨rfl, rfl⟩ (.cons ⟨rfl, rfl⟩ .nil))

theorem Connector.form_admits : Connector.form.Admits Connector.toValue := fun c =>
  Form.record_self (.cons ⟨rfl, rfl⟩ (.cons ⟨rfl, Point.form_admits c.relative⟩
    (.cons ⟨rfl, Point.form_admits c.absolute⟩ .nil)))

theorem NodeKind.form_admits : NodeKind.form.Admits NodeKind.toValue := by
  intro k
  apply Form.tagged_self
  cases k with
  | leftRail | rightRail | unknown => exact .nil
  | contact | coil => exact .cons ⟨rfl, rfl⟩ (.cons ⟨rfl, rfl⟩ .nil)
  | block b =>
    have htext : Form.same.Admits Value.text := fun _ => rfl
    exact .cons ⟨rfl, rfl⟩ (.cons ⟨rfl, htext.optional nofun b.instanceName⟩ (.cons ⟨rfl, rfl⟩
      (.cons ⟨rfl, Connector.form_admits.list b.inputs⟩
        (.cons ⟨rfl, Connector.form_admits.list b.outputs⟩ .nil))))
  | variableIn | variableOut => exact .cons ⟨rfl, rfl⟩ (.cons ⟨rfl, rfl⟩ .nil)
  | parallelOpen branch | parallelClose branch =>
    exact .cons ⟨rfl, Connector.form_admits branch⟩ .nil

theorem Node.form_admits : Node.form.Admits Node.toValue := fun n =>
  Form.record_self (.cons ⟨rfl, rfl⟩ (.cons ⟨rfl, rfl⟩
    (.cons ⟨rfl, Point.form_admits n.position⟩ (.cons ⟨rfl, rfl⟩ (.cons ⟨rfl, rfl⟩
      (.cons ⟨rfl, Connector.form_admits.optional nofun n.input⟩
        (.cons ⟨rfl, Connector.form_admits.optional nofun n.output⟩
          (.cons ⟨rfl, NodeKind.form_admits n.kind⟩ .nil))))))))

theorem Edge.form_admits : Edge.form.Admits Edge.toValue := fun _ =>
  Form.record_self (.cons ⟨rfl, rfl⟩ (.cons ⟨rfl, rfl⟩ (.cons ⟨rfl, rfl⟩ (.cons ⟨rfl, rfl⟩ .nil))))

theorem Binding.form_admits : Binding.form.Admits Binding.toValue := fun _ =>
  Form.record_self (.cons ⟨rfl, rfl⟩ (.cons ⟨rfl, rfl⟩ (.cons ⟨rfl, rfl⟩ .nil)))

theorem Rung.form_admits : Rung.form.Admits Rung.toValue := fun r =>
  Form.record_self (.cons ⟨rfl, rfl⟩ (.cons ⟨rfl, Node.form_admits.list r.nodes⟩
    (.cons ⟨rfl, Edge.form_admits.list r.edges⟩
      (.cons ⟨rfl, Binding.form_admits.list r.bindings⟩ (.cons ⟨rfl, rfl⟩ .nil)))))

theorem Program.presents_toValue (p : Program) : p.Presents p.toValue :=
  Form.record_self (.cons ⟨rfl, rfl⟩ (.cons ⟨rfl, rfl⟩
    (.cons ⟨rfl, Rung.form_admits.list p.rungs⟩ .nil)))

end LadderDiagram
