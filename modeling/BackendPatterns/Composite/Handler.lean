import BackendPatterns.Lib.Bytes

/-! # The routing tree

A handler is an endpoint or a group of handlers under a prefix. A request goes
depth first through the tree, with one response that all attempts share, and
stops at the first endpoint that takes it. -/

namespace BackendPatterns.Composite
open BackendPatterns.Lib

structure Request where
  method : Bytes
  path : Bytes

structure Response where
  status : Int
  body : Bytes
  deriving DecidableEq

def Response.init : Response := ⟨200, []⟩

structure Endpoint where
  method : Bytes
  path : Bytes
  body : Bytes
  deriving DecidableEq

inductive Handler
  | endpoint (e : Endpoint)
  | group (prefix_ : Bytes) (children : List Handler)

def Endpoint.tryHandle (e : Endpoint) (request : Request) (response : Response) :
    Bool × Response :=
  if request.method ≠ e.method ∨ request.path ≠ e.path then (false, response)
  else (true, ⟨200, e.body⟩)

def startsWith (s prefix_ : Bytes) : Bool :=
  s.length ≥ prefix_.length && s.substr 0 prefix_.length = prefix_

/-- `RouteGroup::add`. -/
def Handler.add : Handler → Handler → Handler
  | .group prefix_ children, child => .group prefix_ (children ++ [child])
  | .endpoint e, _ => .endpoint e

mutual

def Handler.tryHandle : Handler → Request → Response → Bool × Response
  | .endpoint e, request, response => e.tryHandle request response
  | .group prefix_ children, request, response =>
    if startsWith request.path prefix_ then tryChildren children request response
    else (false, response)

/-- The loop over the children of a group. -/
def tryChildren : List Handler → Request → Response → Bool × Response
  | [], _, response => (false, response)
  | child :: children, request, response =>
    match child.tryHandle request response with
    | (true, response) => (true, response)
    | (false, response) => tryChildren children request response

end

def dispatch (root : Handler) (request : Request) : Response :=
  match root.tryHandle request .init with
  | (true, response) => response
  | (false, response) => { response with status := 404, body := str "not found" }

end BackendPatterns.Composite
