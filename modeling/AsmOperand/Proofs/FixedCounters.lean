import AsmOperand.Proofs.Range

/-!
# Where the location counter is fixed

Where every reading of the location counter is the same, it makes no difference how often the
counter was read before an evaluation: the value, what is written, and the number of further
readings do not depend on it.
-/

namespace AsmOperand

/-- However often the counter was read before, the evaluation comes to one value, which is as `Q`
says, writes the same, and reads the counter equally often. -/
def Steady {α : Type} (Q : α → Prop) (m : Evaluation α) : Prop :=
  ∃ v es n, Q v ∧ ∀ k, Yields m k ⟨v, es, k + n⟩

namespace Steady

variable {α β : Type} {Q : α → Prop} {R : β → Prop}

theorem pure {a : α} (h : Q a) : Steady Q (pure a) := ⟨a, [], 0, h, Yields.pure a⟩

theorem bind {m : Evaluation α} {f : α → Evaluation β} (first : Steady Q m)
    (second : ∀ a, Q a → Steady R (f a)) : Steady R (m >>= f) := by
  obtain ⟨a, es, n, ha, before⟩ := first
  obtain ⟨b, fs, n', hb, after⟩ := second a ha
  refine ⟨b, es ++ fs, n + n', hb, ?_⟩
  intro k
  rw [← Nat.add_assoc]
  exact Yields.bind (before k) (after (k + n))

theorem write (e : Event) : Steady (fun _ => True) (Evaluation.write e) :=
  ⟨(), [e], 0, trivial, Yields.write e⟩

section Fixed
variable {env : Env} (fixed : ∀ k, env.counter k = env.counter 0)
include fixed

theorem readCounter : Steady (fun _ => True) env.readCounter := by
  refine ⟨env.counter 0, [], 1, trivial, ?_⟩
  intro k
  rw [← fixed k]
  exact Yields.readCounter env k

theorem ofParts (W : Event → Prop) : OfParts env W fun _ Q m => Steady Q m :=
  ⟨pure, bind, fun _ => write _, readCounter fixed⟩

end Fixed

end Steady

/-- An operand on its line comes to the same however often a fixed counter was read before. -/
theorem Env.evaluate_steady {env : Env} (pos : env.settings.width.Positive)
    (fixed : ∀ k, env.counter k = env.counter 0) {e : Excerpt} (wf : e.WellFormed) :
    Steady env.settings.width.Holds (env.evaluate e) :=
  evaluate_ofParts (Steady.ofParts fixed _) pos wf (admits_fits env _)

end AsmOperand
