/-!
Limits under which programs run.
-/
namespace Stepwise

structure Settings where
  /-- Without a number each engine uses its own. -/
  maxSteps : Option Int := none
  historySize : Int := 1000
  evaluationSteps : Int := 10000
  /-- Nested calls, the same number for both engines. -/
  callDepth : Int := 200
  debug : Bool := false
  deriving DecidableEq, Inhabited

/-- The step limit of an engine under some settings; zero and negative limits are kept. -/
def Settings.stepLimit (settings : Settings) (usual : Int) : Int := settings.maxSteps.getD usual

end Stepwise
