import TwigStyle.Proofs.Convergence

/-!
# Rules that are done after one pass

Four rules need one pass that edits, if they are alone: the one about blanks at the end of a line, the
one about the end of the file, the one about tabs and the one about delimiters.  The first three ask for
no spaces in code, and a pass does all that they ask for.  A delimiter wants a space on one side only,
and two delimiters with only a gap between them want nothing of it, so no edit of the fourth rule gets
in the way of another (`Ruleset.oneSided_delimiters`).

Nothing was written before the first pass, so it is not in conflict, and the second one finds nothing
left (`Fixer.Bound.once`).
-/

namespace TwigStyle

namespace Ruleset

variable {r : Rule} {s s' : TokenStream} {i w : Nat} {side : Spacing.Side}

end Ruleset

/-! ### Two passes -/

namespace Fixer

variable {rs : Ruleset} {file : SourceFile} {fx : Fixer} {content : List Char} {t : Template}

/-- If a step leaves nothing to be done, a fixer that has written nothing needs two passes at most. -/
theorem Bound.once (hrs : ∀ r ∈ rs.rules, r.isBuiltIn = true)
    (happlies : ∀ r ∈ rs.rules, ∀ file, r.appliesTo file = true) (h : fx.Bound rs content t)
    (hcalm : fx.buffer.Calm)
    (hsettles : ∀ s', rs.Step t.stream s' → ¬rs.Settled t.stream → rs.Settled s') (remaining : Nat) :
    ∃ out fx', passes rs file (remaining + 2) content fx = (.ok out, fx') ∧
      fx'.buffer.passes ≤ fx.buffer.passes + 2 := by
  by_cases hsettled : rs.Settled t.stream
  · obtain ⟨fx', hpasses, hcount⟩ := h.passes_of_settled hrs happlies hsettled (remaining + 1)
    exact ⟨content, fx', hpasses, by omega⟩
  · have hconflict : (fx.next rs { file with content } t).buffer.inConflict = false :=
      not_inConflict_of_calm hrs hcalm
    have hcount : (fx.next rs { file with content } t).buffer.passes = fx.buffer.passes + 1 :=
      next_passes hrs fx
    rw [passes_succ h.template]
    split
    · exact ⟨_, _, rfl, by omega⟩
    · obtain ⟨t', hbound, hstep⟩ := h.next hrs (fun r hr => happlies r hr _) hconflict
      rw [if_neg (by rw [hconflict]; exact nofun)]
      obtain ⟨fx', hpasses, hcount'⟩ :=
        hbound.passes_of_settled hrs happlies (hsettles _ hstep hsettled) remaining
      exact ⟨_, fx', hpasses, by omega⟩

end Fixer

end TwigStyle
