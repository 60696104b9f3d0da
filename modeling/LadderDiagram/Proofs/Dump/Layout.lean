import LadderDiagram.Proofs.Snapshot.Form

/-!
# Indented text

The text of a document with one member or item on a line spells the document: new lines, and the
blanks that indent them, stand only between lexemes (`Value.spells_pretty`).
-/

namespace LadderDiagram.Json

/-- The text consists of the lexemes, with white space between them, and does so in front of any
text that goes on with others. -/
def Prints (ls : List String) (cs : List Char) : Prop :=
  ∀ ls' cs', Spaced ls' cs' → Spaced (ls ++ ls') (cs ++ cs')

namespace Prints

theorem lexeme (l : String) : Prints [l] l.toList := fun _ _ h => .next (w := []) nofun h

theorem space {w : List Char} (hw : ∀ c ∈ w, isSpace c) : Prints [] w := by
  intro ls' cs' h
  cases h with
  | done hw' => exact .done (List.forall_mem_append.2 ⟨hw, hw'⟩)
  | next hw' h =>
    rw [← List.append_assoc]
    exact .next (List.forall_mem_append.2 ⟨hw, hw'⟩) h

theorem append {ls ls' : List String} {cs cs' : List Char} (h : Prints ls cs)
    (h' : Prints ls' cs') : Prints (ls ++ ls') (cs ++ cs') := by
  intro ls'' cs'' h''
  rw [List.append_assoc, List.append_assoc]
  exact h _ _ (h' _ _ h'')

theorem spaced {ls : List String} {cs : List Char} (h : Prints ls cs) : Spaced ls cs := by
  simpa using h [] [] (.done nofun)

theorem intercalate {sep : String} {gap : List Char} (hsep : Prints [sep] gap)
    {lss : List (List String)} {texts : List (List Char)} (h : List.Forall₂ Prints lss texts) :
    Prints ([sep].intercalate lss) (gap.intercalate texts) := by
  induction h with
  | nil => exact space nofun
  | cons hfirst hrest ih =>
    cases hrest with
    | nil => simpa using hfirst
    | cons _ _ =>
      simp only [List.intercalate_cons_cons]
      exact (hfirst.append hsep).append ih

end Prints

namespace Value

theorem prints_newLine (level : Nat) : Prints [] (newLine level).toList := by
  have htext : (newLine level).toList = '\n' :: List.replicate (2 * level) ' ' := by simp [newLine]
  rw [htext]
  apply Prints.space
  rw [List.forall_mem_cons]
  refine ⟨rfl, fun c hc => ?_⟩
  rw [List.eq_of_mem_replicate hc]
  rfl

theorem prints_block (opening closing : String) (level : Nat) {lss : List (List String)}
    {lines : List String} (h : List.Forall₂ Prints lss (lines.map String.toList)) :
    Prints (opening :: ([","].intercalate lss ++ [closing]))
      (block opening closing level lines).toList := by
  cases lines with
  | nil =>
    cases h
    rw [block, String.toList_append]
    exact (Prints.lexeme opening).append (.lexeme closing)
  | cons line lines =>
    have hsep : Prints [","] (",".toList ++ (newLine (level + 1)).toList) :=
      (Prints.lexeme ",").append (prints_newLine (level + 1))
    have hlines := Prints.intercalate hsep h
    have hall := ((((Prints.lexeme opening).append (prints_newLine (level + 1))).append
      hlines).append (prints_newLine level)).append (.lexeme closing)
    simp only [block, String.toList_append, String.toList_intercalate]
    simpa only [List.append_nil, List.nil_append, List.singleton_append, List.cons_append]
      using hall

mutual

theorem prints_pretty (level : Nat) (v : Value) : Prints v.lexemes (pretty level v).toList := by
  cases v with
  | null | boolean _ | natural _ | real _ | text _ => exact .lexeme _
  | list items => exact prints_block "[" "]" level (prints_prettyItems (level + 1) items)
  | object members =>
    exact prints_block "\x7b" "\x7d" level (prints_prettyMembers (level + 1) members)

theorem prints_prettyItems (level : Nat) (items : List Value) :
    List.Forall₂ Prints (itemLexemes items) ((prettyItems level items).map String.toList) := by
  match items with
  | [] => exact .nil
  | v :: rest => exact .cons (prints_pretty level v) (prints_prettyItems level rest)

theorem prints_prettyMembers (level : Nat) (members : List (String × Value)) :
    List.Forall₂ Prints (memberLexemes members)
      ((prettyMembers level members).map String.toList) := by
  match members with
  | [] => exact .nil
  | (key, v) :: rest =>
    refine .cons ?_ (prints_prettyMembers level rest)
    have hcolon : Prints [":"] ": ".toList :=
      (Prints.lexeme ":").append (.space (List.forall_mem_singleton.2 rfl))
    rw [String.toList_append, String.toList_append]
    exact ((Prints.lexeme _).append hcolon).append (prints_pretty level v)

end

/-- The indented text of a document spells it. -/
theorem spells_pretty (level : Nat) (v : Value) : v.Spells (v.pretty level) :=
  (prints_pretty level v).spaced

end Value

end LadderDiagram.Json
