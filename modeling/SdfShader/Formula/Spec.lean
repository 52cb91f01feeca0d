import SdfShader.Number.Binary

/-!
# Formula specifications

A formula is specified once: its documentation, its test vectors, and the templates from which its
code is made for the host, for the shader and for the tests.
-/

namespace SdfShader.Formula

structure Parameter where
  name : String
  type : String
  description : String
  deriving DecidableEq

structure Result where
  type : String
  description : String
  deriving DecidableEq

structure Step where
  name : String
  expr : String
  description : String
  deriving DecidableEq

structure Pitfall where
  name : String
  wrong : String
  right : String
  explanation : String
  deriving DecidableEq

/-- A test vector; the arguments are all scalars of the call, one after the other. -/
structure TestVector where
  name : String
  args : List Double
  expected : Double
  tolerance : Double
  description : String
  deriving DecidableEq

structure Spec where
  name : String
  category : String
  description : String
  verifiedDate : String
  params : List Parameter
  result : Result
  steps : List Step
  pitfalls : List Pitfall
  tests : List TestVector
  hostTemplate : String
  shaderTemplate : String
  testTemplate : String
  deriving DecidableEq

end SdfShader.Formula
