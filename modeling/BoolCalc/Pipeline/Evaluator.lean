import BoolCalc.Normalize
import BoolCalc.Pipeline.Error
import BoolCalc.Pipeline.Work
import BoolCalc.Syntax.Parser

namespace BoolCalc

/-!
# The pipeline

* `Pipeline.read` : the tree of a normalized text;
* `Pipeline.compile` : the tree of an expression, taken from the cache where it is there;
* `Pipeline.evaluate` : the truth value of an expression under a parameter string;
* `compileExpression`, `evaluateExpression` : the same without a cache and without a log.
-/

namespace Pipeline

/-- The key of a normalized text under the preferences `p`. -/
def cacheKey (p : Preferences) (normalized : String) : CacheKey := ⟨p.lexical.acceptBang, normalized⟩

/-- The tree of a normalized text: `tokenize`, and then `parse`. -/
def read (p : Preferences) (normalized : String) : Work (Except PipelineError Expr) :=
  (Work.ofStage (tokenize p.lexical normalized) .lex).andThen fun tokens =>
    Work.ofStage (parse tokens) .parse

/-- The event for a tree that was found in the cache instead of a `read`. -/
def foundEvent (expression : String) : Log.Event :=
  .stage .cacheHit "Parsed expression served from cache"
    [("length", toString expression.utf8ByteSize)]

/-- The tree of `expression`, from the cache if it has one under the key, and from `read` otherwise. -/
def compile (p : Preferences) (expression : String) : Work (Except PipelineError TreeObject) :=
  (Work.ofLogged (normalize expression)).bind fun normalized =>
    -- Texts that differ only in the spelling of keywords have one key.
    let key := cacheKey p normalized.text
    .find key fun
      | some object => .log (foundEvent expression) (.done (.ok object))
      | none => (read p normalized.text).andThen fun tree => .keep key tree (.done <| .ok ·)

/-- The bindings of the parameter string `values`, as a stage. -/
def bindValues (p : Preferences) (values : String) : Work (Except PipelineError Bindings) :=
  Work.ofStage (bind p.binding values) .binding

/-- The truth value of `tree` under `b`, as a stage. -/
def evaluateTree (p : Preferences) (tree : Expr) (b : Bindings) : Work (Except PipelineError Bool) :=
  Work.ofStage (BoolCalc.evaluate p.evaluation tree b) .evaluation

/-- The event for an answer after `elapsed` microseconds. -/
def completedEvent (elapsed : Nat) (result : Bool) : Log.Event :=
  .stage .evaluationComplete "Pipeline completed"
    [("result", Expr.boolText result), ("duration_us", toString elapsed)]

/-- The answer for an expression and a parameter string; `elapsed` is the time to report, in
microseconds. -/
def evaluate (p : Preferences) (elapsed : Nat) (expression values : String) :
    Work (Except PipelineError Response) :=
  (compile p expression).andThen fun object =>
    (bindValues p values).andThen fun b =>
      (evaluateTree p object.tree b).andThen fun result =>
        .log (completedEvent elapsed result) (.done (.ok ⟨expression, values, result⟩))

/-- The memory of an evaluator that shares nothing: it has a cache of its own if `cacheTrees` is set. -/
def ownMemory (p : Preferences) : Memory where
  cache := if p.evaluation.cacheTrees then some .empty else none

end Pipeline

/-- The tree of `expression` under `Preferences.strict`, in a memory without cache. -/
def compileExpression (expression : String) : Except PipelineError Expr :=
  ((Pipeline.compile .strict expression).run none {}).1.map TreeObject.tree

/-- The answer for `expression` and `values` under `Preferences.strict`, in a memory without cache. -/
def evaluateExpression (expression values : String) : Except PipelineError Response :=
  ((Pipeline.evaluate .strict 0 expression values).run none {}).1

end BoolCalc
