import Restflow.Python.Float
import Restflow.Python.Value
import Restflow.Python.Ast
import Restflow.WorkflowDef
import Restflow.Parser
import Restflow.Parser.Laws
import Restflow.Predicates
import Restflow.Shape
import Restflow.Literal
import Restflow.Failure
import Restflow.Json.Encoder
import Restflow.Json.Reader
import Restflow.Json.Values
import Restflow.WireFormat
import Restflow.Decorators
import Restflow.Pipeline
import Restflow.Semantics
import Restflow.Refinement
import Restflow.Json.Loads
import Restflow.Dataset
import Restflow.Schema
import Restflow.Runtime
import Restflow.Evaluate
