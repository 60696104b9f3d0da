import LadderDiagram.Proofs.Lowering

/-!
# Operands at input pins

An input pin of a block takes its value from its wires or, if there are none, from an in-variable
that is bound to it. A list of bindings serves the in-variables and the out-variables of a rung
alike, and an in-out pin has one name on both sides of its block, so the bindings of an input pin
may be of either kind. What a pin ought to show is `Rung.promised`: the first of its bindings counts
that gives it an operand.

The emitter looks at the first binding of the pin alone. `pin_sources` says what becomes of every
pin: a pin without wires is lost, and told of as if nothing were bound to it, exactly if a binding
that gives no operand hides one that does (`Rung.Hidden`).
-/

namespace LadderDiagram

open Body (Connection InputSource)

namespace Rung

/-- The bindings of a pin name, whichever side of the block they mean. -/
def pinBindings (r : Rung) (block : Node) (pin : Connector) : List Binding :=
  r.bindings.filter fun b => b.blockId == block.id && b.handle == pin.id

/-- What the drawing gives a pin into which the connections lead: its wires, and without any the
operand of the first binding that has one. -/
def promised (r : Rung) (block : Node) (pin : Connector) (cs : List Connection) :
    Option InputSource :=
  if cs = [] then
    ((r.pinBindings block pin).findSome? (r.operand? ·.variableId)).map .expression
  else some (.connected (inputSide (some pin) cs))

/-- The first binding of the pin has no operand, and hides one that does. -/
def Hidden (r : Rung) (block : Node) (pin : Connector) : Prop :=
  ∃ first rest, r.pinBindings block pin = first :: rest ∧ r.operand? first.variableId = none ∧
    ∃ b ∈ rest, r.operand? b.variableId ≠ none

end Rung

namespace RungContext

variable {r : Rung} {index : Nat} {offset : Offset} {n : Node} {pin : Connector}

theorem head?_pinBindings :
    (r.pinBindings n pin).head? = r.bindingForHandle? n.id pin.id := List.head?_filter

/-- The first binding gives what any of them would, unless it hides it. -/
theorem boundExpression_eq_findSome?_iff : (r.context index offset).boundExpression n pin =
    (r.pinBindings n pin).findSome? (r.operand? ·.variableId) ↔ ¬ r.Hidden n pin := by
  rw [boundExpression_eq, ← head?_pinBindings, Rung.Hidden]
  cases r.pinBindings n pin with
  | nil => simp
  | cons first rest =>
    cases h : r.operand? first.variableId with
    | none =>
      rw [List.head?_cons, Option.bind_some, List.findSome?_cons, h, eq_comm,
        List.findSome?_eq_none_iff]
      simp [h]
    | some name => simp [h]

/-- What is emitted for a pin is what it is promised, unless its operand is hidden; then it is
nothing. -/
theorem pinSource_promised {source : Option InputSource}
    (h : (r.context index offset).pinSource n pin = .ok source) :
    ∃ cs, (r.context index offset).intoPin n pin = .ok cs ∧
      (source = r.promised n pin cs ↔ ¬ (cs = [] ∧ r.Hidden n pin)) ∧
      (cs = [] ∧ r.Hidden n pin → source = none) := by
  obtain ⟨cs, hcs, rfl⟩ := pinSource_eq_ok h
  refine ⟨cs, hcs, ?_, ?_⟩
  · rw [Rung.promised]
    by_cases hnil : cs = []
    · rw [if_pos hnil, if_pos hnil,
        (Option.map_injective fun _ _ => InputSource.expression.inj).eq_iff,
        boundExpression_eq_findSome?_iff]
      simp [hnil]
    · simp [hnil]
  · rintro ⟨hnil, first, rest, hb, hfirst, -⟩
    rw [if_pos hnil, boundExpression_eq, ← head?_pinBindings, hb, List.head?_cons, Option.bind_some,
      hfirst, Option.map_none]

end RungContext

/-- **What becomes of the input pins of a block.** They are gone through in order; a pin with a
source is shown with it, and any other is left out and told of. The source is the one that the
drawing promises, unless the pin has no wires and its first binding hides an operand. Then the pin
is left out, although an in-variable is bound to it. -/
theorem pin_sources {r : Rung} {index : Nat} {offset : Offset} {n : Node} {data : BlockData}
    {x : Body.Block} {warnings : List Warning}
    (h : (r.context index offset).block n data = .ok (x, warnings)) :
    ∃ pins : List (Connector × Option InputSource), pins.map (·.1) = data.inputs ∧
      x.inputs = pins.filterMap (fun p => p.2.map (⟨p.1.id, ·⟩)) ∧
      warnings = (pins.filter (·.2.isNone)).map
        (fun p => .danglingReference index n.id p.1.id) ∧
      ∀ p ∈ pins, ∃ cs, (r.context index offset).intoPin n p.1 = .ok cs ∧
        (p.2 = r.promised n p.1 cs ↔ ¬ (cs = [] ∧ r.Hidden n p.1)) ∧
        (cs = [] ∧ r.Hidden n p.1 → p.2 = none) := by
  obtain ⟨pins, hpins, -, hin, hwarn⟩ := RungContext.block_eq_ok h
  refine ⟨pins, ?_, hin, hwarn, fun p hp => ?_⟩
  · refine (map_of_mapM_eq_ok hpins fun pin p hp => ?_).trans (List.map_id' _)
    obtain ⟨source, -, hp⟩ := bind_eq_ok.1 hp
    cases hp
    rfl
  · obtain ⟨pin, -, hp⟩ := (mem_of_mapM_eq_ok hpins).1 hp
    obtain ⟨source, hsource, hp⟩ := bind_eq_ok.1 hp
    cases hp
    exact RungContext.pinSource_promised hsource

def counter : BlockData where
  typeName := "CTU"
  inputs := [{ id := "IO" }, { id := "PV" }]
  outputs := [{ id := "IO" }]

/-- The counter with an out-variable and an in-variable bound to its in-out pin, in this order, and
an in-variable bound to its other pin. -/
def boundCounter : Rung where
  nodes := [
    { id := "count", numericId := 1, kind := .block counter },
    { id := "q", numericId := 2, kind := .variableOut { name := "q" } },
    { id := "v", numericId := 3, kind := .variableIn { name := "v" } },
    { id := "k", numericId := 4, kind := .variableIn { name := "k" } }]
  bindings := [⟨"q", "count", "IO"⟩, ⟨"v", "count", "IO"⟩, ⟨"k", "count", "PV"⟩]

/-- One of the pins is shown, and one is told of. -/
theorem boundCounter_sources :
    ∃ n ∈ boundCounter.nodes, n.kind = .block counter ∧ ∃ x warnings,
      (boundCounter.context 0 .zero).block n counter = .ok (x, warnings) ∧
      x.inputs = [⟨"PV", .expression "k"⟩] ∧ warnings = [.danglingReference 0 "count" "IO"] ∧
      ∃ pins : List (Connector × Option InputSource), pins.map (·.1) = counter.inputs ∧
        ∀ p ∈ pins, ∃ cs, (boundCounter.context 0 .zero).intoPin n p.1 = .ok cs ∧
          (p.2 = boundCounter.promised n p.1 cs ↔ ¬ (cs = [] ∧ boundCounter.Hidden n p.1)) ∧
          (cs = [] ∧ boundCounter.Hidden n p.1 → p.2 = none) := by
  have hok : ((boundCounter.context 0 .zero).block boundCounter.nodes[0] counter).toOption.map
      (fun p => (p.1.inputs, p.2)) =
        some ([⟨"PV", .expression "k"⟩], [.danglingReference 0 "count" "IO"]) := by decide +kernel
  obtain ⟨⟨x, warnings⟩, hx, he⟩ := Option.map_eq_some_iff.1 hok
  obtain ⟨hin, hwarn⟩ := Prod.mk.inj he
  have hblock := eq_ok_of_toOption hx
  obtain ⟨pins, hpins, -, -, hall⟩ := pin_sources hblock
  exact ⟨_, List.getElem_mem _, rfl, x, warnings, hblock, hin, hwarn, pins, hpins, hall⟩

/-- **An operand is lost behind the binding of an out-variable.** The in-variable `v` is bound to
the in-out pin, and nothing else feeds it; but the pin is left out and told of as dangling. Without
the binding of the out-variable it is shown. -/
theorem operand_lost_behind_out_variable :
    ∃ n ∈ boundCounter.nodes, n.kind = .block counter ∧
      (boundCounter.context 0 .zero).intoPin n { id := "IO" } = .ok [] ∧
      boundCounter.promised n { id := "IO" } [] = some (.expression "v") ∧
      (∃ x, (boundCounter.context 0 .zero).block n counter =
          .ok (x, [.danglingReference 0 "count" "IO"]) ∧
        x.inputs = [⟨"PV", .expression "k"⟩]) ∧
      ∃ x, (Rung.context { boundCounter with bindings := boundCounter.bindings.tail } 0 .zero).block
          n counter = .ok (x, []) ∧
        x.inputs = [⟨"IO", .expression "v"⟩, ⟨"PV", .expression "k"⟩] := by
  have hshown {r : Rung} {ws : List Warning} {inputs : List Body.BlockInput}
      (h : ((r.context 0 .zero).block boundCounter.nodes[0] counter).toOption.map
        (fun p => (p.1.inputs, p.2)) = some (inputs, ws)) :
      ∃ x, (r.context 0 .zero).block boundCounter.nodes[0] counter = .ok (x, ws) ∧
        x.inputs = inputs := by
    obtain ⟨⟨x, warnings⟩, hx, he⟩ := Option.map_eq_some_iff.1 h
    obtain ⟨rfl, rfl⟩ := Prod.mk.inj he
    exact ⟨x, eq_ok_of_toOption hx, rfl⟩
  refine ⟨boundCounter.nodes[0], List.getElem_mem _, rfl, eq_ok_of_toOption (by decide +kernel),
    by decide +kernel, hshown (by decide +kernel), hshown (by decide +kernel)⟩

end LadderDiagram
