import EcsactSiWasmer.Execution.System

namespace Ecsact

namespace Build

-- The instance that an iteration of the load makes, or its error, as far as they are told by what the
-- engine makes of the module.
def minst (build : Build) : Except MinstError Minst :=
  match build.module with
  | .error message => .error ⟨.compileFail, message⟩
  | .ok module     =>
    match module.imports.find? fun imp => (importResolver imp).isNone with
    | some imp => .error ⟨.unresolvedGuestImport, unresolvedMessage imp⟩
    | none     =>
      match build.externs, build.startRun.trap with
      | .error message, _         => .error ⟨.instantiateFail, message⟩
      | .ok _,    some message    => .error ⟨.instantiateFail, message⟩
      | .ok ptrs, none            => .ok {
          imports := module.imports
          exports := List.zipWith (fun e ptr => ⟨e.name, e.kind, ptr⟩) module.exports ptrs
        }

def toSiError : MinstErrorCode → SiError
  | .ok | .compileFail     => .compileFail
  | .unresolvedGuestImport => .guestImportInvalid
  | .instantiateFail       => .instantiateFail

-- The error which an iteration of the load returns.
def error (systems : List (SystemId × String)) (build : Build) : Option SiError :=
  match build.minst with
  | .error err => some (toSiError err.code)
  | .ok inst   =>
    match getSystemImplExports inst systems fun _ => none with
    | .error err => some err
    | .ok _      =>
      if (inst.findExport "_initialize").isSome ∧ build.initRun.trap.isSome then some .initializeFail
      else none

end Build

-- An instance is what the engine has made of the module, with the functions of the systems and its
-- first memory.
structure Program.Built (systems : List (SystemId × String)) (build : Build) (m : SystemImpls) :
    Prop where
  minst   : build.minst = .ok m.minst
  exports : getSystemImplExports m.minst systems (fun _ => none) = .ok m.sysImplExports
  memory  : m.minst.exports.find? (·.kind = .memory) = some m.memory

end Ecsact
