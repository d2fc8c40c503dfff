import CallScript.Function

/-!
# The console
-/

namespace CallScript.Function

/-- Writes a line. Without a console the line is lost. -/
def console : Function where
  name := "console"
  arity := .fixed 1
  params := ["message"]
  docs := "Writes message to the console and returns null."
  examples := [⟨"Print a line", "console('hello')", "null"⟩]
  thrown := []
  affinity := .mainThread
  treatments := []
  validate _ _ := .ok ()
  execute args _ w := (.ok .null, w.writeLine (arg args 0).render)
  rewrite _ _ := .ok none

end CallScript.Function
