import CrudLayers.Source.Basic
import CrudLayers.Text.Distinct

namespace CrudLayers

namespace Import

/-- Adds names to the statement for a module, which comes last if it is new. -/
def merge (origin : Origin) (source : String) (names : List String) : List Import → List Import
  | [] => [⟨origin, source, addNew [] names⟩]
  | i :: rest =>
    if i.source = source then ⟨i.origin, i.source, addNew i.names names⟩ :: rest
    else i :: merge origin source names rest

/-- Imports names from a module; without names there is nothing to import. -/
def add (imports : List Import) (origin : Origin) (source : String) (names : List String) :
    List Import :=
  if names = [] then imports else merge origin source names imports

/-- The statements group by group; within a group they keep their order. -/
def grouped (imports : List Import) : List Import :=
  Origin.all.flatMap (fun o => imports.filter (fun i => i.origin = o))

end Import

structure Assembly where
  layer : Layer
  path : String
  imports : List Import
  decl : ClassDecl
deriving DecidableEq

namespace Assembly

def start (layer : Layer) (path className : String) (c : Collaborator) : Assembly :=
  ⟨layer, path, [], ⟨className, [], c, []⟩⟩

def decorate (a : Assembly) (d : Decorator) : Assembly :=
  { a with decl := { a.decl with decorators := a.decl.decorators ++ [d] } }

def require (a : Assembly) (origin : Origin) (source : String) (names : List String) : Assembly :=
  { a with imports := Import.add a.imports origin source names }

def method (a : Assembly) (m : Method) : Assembly :=
  { a with decl := { a.decl with methods := a.decl.methods ++ [m] } }

def methods (a : Assembly) (ms : List Method) : Assembly :=
  ms.foldl method a

def finish (a : Assembly) : SourceFile :=
  ⟨a.layer, a.path, Import.grouped a.imports, a.decl⟩

end Assembly

end CrudLayers
