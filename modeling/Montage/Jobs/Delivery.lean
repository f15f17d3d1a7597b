import Montage.Jobs.Registry
import Montage.Render.Task

/-!
# What a render tells its job

While a render goes on its job is told how far it is; when the render has ended its job is told how,
and ends in the same way.  Like every change, neither reaches a job that has ended already.
-/

namespace Montage.Registry

/-- Tells a job how far its render is. -/
def deliverProgress (r : Registry) (now : Int) (id : Int) (published : Float) :
    Option (JobEvent × Registry) :=
  r.setStatus now id .running (some published)

/-- Tells a job how its render ended. -/
def deliverOutcome (r : Registry) (now : Int) (id : Int) :
    Outcome → Option (JobEvent × Registry)
  | .ok _ => r.setStatus now id .completed (some 1.0)
  | .error e =>
    if e.isCancelled then r.setStatus now id .cancelled none else r.fail now id e.report

end Montage.Registry
