import EcsactSiWasmer.Execution.Load
import Mathlib.Data.List.Forall2

open Ecsact.World

namespace Ecsact

-- The loop over the imports, with the functions so far which the externs are made of.
def resolveImports : List MinstImport → List ImportResolveFunc →
    Except MinstError (List ImportResolveFunc)
  | [],          externs => .ok externs
  | imp :: rest, externs =>
    match importResolver imp with
    | none      => .error ⟨.unresolvedGuestImport, unresolvedMessage imp⟩
    | some func => resolveImports rest (externs ++ [func])

-- What the engine answers in the `k`-th iteration of a load: the module of some bytes, the pointers of
-- what an instance exports which gets the given functions, and what its functions do.
structure Engine where
  compile     : List Byte → Nat → Except String Module
  instantiate : Module → List ImportResolveFunc → Nat → Except String (List (BitVec 64))
  startRun    : List Byte → Nat → GuestRun
  initRun     : List Byte → Nat → GuestRun

namespace Engine

variable (engine : Engine) (bytes : List Byte) (k : Nat)

-- `minst::create` with the externs that it passes to `wasm_instance_new`.
def create : CallbackM (Except MinstError Minst) := do
  match engine.compile bytes k with
  | .error message => return .error ⟨.compileFail, message⟩
  | .ok module     =>
    match resolveImports module.imports [] with
    | .error err  => return .error err
    | .ok externs =>
      match ← Minst.instanceNew {
          module   := .ok module
          externs  := engine.instantiate module externs k
          startRun := engine.startRun bytes k
        } with
      | .error message => return .error ⟨.instantiateFail, message⟩
      | .ok ptrs       => return .ok {
          imports := module.imports
          exports := List.zipWith (fun e ptr => ⟨e.name, e.kind, ptr⟩) module.exports ptrs
        }

-- What a load gets to see of the engine.
def build : Build where
  module   := engine.compile bytes k
  externs  := do
    let module ← engine.compile bytes k
    engine.instantiate module (module.imports.filterMap importResolver) k
  startRun := engine.startRun bytes k
  initRun  := engine.initRun bytes k

-- An instance by what it was linked with: one function for each of its imports, in their order.
structure Linked (m : SystemImpls) (module : Module) (externs : List ImportResolveFunc)
    (ptrs : List (BitVec 64)) : Prop where
  compile     : engine.compile bytes k = .ok module
  resolved    : List.Forall₂ (fun imp func => importResolver imp = some func) module.imports externs
  instantiate : engine.instantiate module externs k = .ok ptrs
  imports     : m.minst.imports = module.imports
  exports     : m.minst.exports =
    List.zipWith (fun e ptr => ⟨e.name, e.kind, ptr⟩) module.exports ptrs

end Engine

namespace Files

-- `std::fseek`, to a position which depends on the stream.
def fseek (file : FilePtr) (pos : Stream → Nat) : FilesM Unit := do
  let (k, s) ← stream file
  modify fun files => { files with streams := files.streams.set k { s with pos := pos s } }

def ftell (file : FilePtr) : FilesM Nat := do
  let (_, s) ← stream file
  return s.pos

-- A stream of a file which has been read to its end.
def readStream (path : String) (content : List Byte) : Stream where
  path    := path
  mode    := "rb"
  content := content
  pos     := content.length
  closed  := false

end Files

namespace Program

-- The engine reads as many bytes as the size says, which is undefined if they are not there. A size
-- that is negative becomes a `size_t` which no array has.
def ecsactSiWasmLoadBytes (thread : ThreadId) (wasmData : List Byte) (wasmDataSize : BitVec 32)
    (systems : List (SystemId × String)) (engine : Engine) : ProgramM SiError := do
  if (← get).setSystemExecutionImpl ∧
      (wasmDataSize.toInt < 0 ∨ wasmData.length < wasmDataSize.toNat) then
    modify ({ · with allMinsts := [] })
    throw (.undefined "wasm_module_new")
  ecsactSiWasmLoad thread systems (engine.build (wasmData.take wasmDataSize.toNat))

-- `fread` of one item gives 1 if it has got all of its bytes, of which there is at least one. Each
-- return leaves the file open.
def ecsactSiWasmLoadFileAt (thread : ThreadId) (wasmFilePath : String)
    (systems : List (SystemId × String)) (engine : Engine) : ProgramM SiError := do
  let file ← onThread thread (onFiles (Files.fopen wasmFilePath "rb"))
  if file.isNone then return .fileOpenFail
  onThread thread (onFiles (Files.fseek file (·.content.length)))
  let fileSize ← onThread thread (onFiles (Files.ftell file))
  onThread thread (onFiles (Files.fseek file fun _ => 0))
  let binaryData ← onThread thread (onFiles (Files.fread fileSize file))
  if fileSize = 0 ∨ binaryData.length < fileSize then return .fileReadFail
  ecsactSiWasmLoadBytes thread binaryData (BitVec.ofNat 32 binaryData.length) systems engine

-- The program with one more stream.
def withStream (p : Program) (thread : ThreadId) (s : Stream) : Program :=
  let w := p.view thread
  p.put thread { w with files := { w.files with streams := w.files.streams ++ [s] } }

-- What is found at a path, if reads of it do not fail.
def loadedFile (p : Program) (path : String) : LoadedFile :=
  match p.world.files.disk path with
  | none         => .missing
  | some content => .content content

-- The program when that has been read.
def fileRead (p : Program) (thread : ThreadId) (path : String) : Program :=
  match p.world.files.disk path with
  | none         => p.put thread (p.view thread)
  | some content => p.withStream thread (Files.readStream path content)

end Program
end Ecsact
