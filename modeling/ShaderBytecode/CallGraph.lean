import ShaderBytecode.Typed

/-!
# Call graphs

Functions are numbered, and each has the list of its calls. Recursion is a cycle of this graph.
-/

namespace ShaderBytecode

/-- The calls of each function, in the order of its body. -/
abbrev CallGraph := List (List (Located Nat))

/-- A call that closes a cycle. -/
structure BackEdge where
  caller : Nat
  callee : Nat
  span : Span
deriving DecidableEq, Repr

namespace CallGraph

def callsOf (g : CallGraph) (function : Nat) : List (Located Nat) :=
  g[function]?.getD []

/-- Searches from `function`, which functions of `path` are in the midst of; those of `done` need no
search. Gives the functions done afterwards. The path holds each function at most once, so `depth`
need not exceed their number. -/
def searchFrom (g : CallGraph) :
    (depth : Nat) → (path done : List Nat) → (function : Nat) → Except BackEdge (List Nat)
  | 0, _, done, _ => .ok done
  | depth + 1, path, done, function => do
    let path := function :: path
    let done ← (g.callsOf function).foldlM
      (fun done call =>
        if path.contains call.value then .error ⟨function, call.value, call.span⟩
        else if done.contains call.value || g.length ≤ call.value then .ok done
        else searchFrom g depth path done call.value)
      done
    return function :: done

def search (g : CallGraph) : Except BackEdge (List Nat) :=
  (List.range g.length).foldlM
    (fun done function =>
      if done.contains function then .ok done else g.searchFrom g.length [] done function)
    []

def backEdge? (g : CallGraph) : Option BackEdge :=
  match g.search with
  | .ok _ => none
  | .error edge => some edge

end CallGraph

def Typed.Registry.callGraph (r : Typed.Registry) : CallGraph :=
  r.functions.map fun f =>
    match f.definition with
    | some definition => Typed.Mention.calls (Typed.Statement.mentionsAll definition.body)
    | none => []

/-- What is wrong with a source as a whole. -/
inductive ModuleFault where
  | undefined (signature : Function)
  | selfCall (function : String)
  | callCycle (caller callee : String)
deriving DecidableEq, Repr

namespace Typed.Registry

def functionName (r : Typed.Registry) (index : Nat) : String :=
  match r.functions[index]? with
  | some f => f.signature.name
  | none => ""

/-- The functions that are declared but never defined. The numbers of functions have 32 bits, and no
definition reaches a function behind the last number. -/
def undefinedFunctions (r : Typed.Registry) : List (Located ModuleFault) :=
  (r.functions.zipIdx.filter fun (f, index) => f.definition.isNone || UInt32.size ≤ index).map
    fun (f, _) => ⟨.undefined f.signature, f.span⟩

def recursion? (r : Typed.Registry) : Option (Located ModuleFault) :=
  r.callGraph.backEdge?.map fun edge =>
    let caller := r.functionName edge.caller
    if edge.caller = edge.callee then ⟨.selfCall caller, edge.span⟩
    else ⟨.callCycle caller (r.functionName edge.callee), edge.span⟩

def moduleFaults (r : Typed.Registry) : List (Located ModuleFault) :=
  r.undefinedFunctions ++ r.recursion?.toList

end Typed.Registry

end ShaderBytecode
