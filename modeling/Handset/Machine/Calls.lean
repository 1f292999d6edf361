import Handset.Machine.Execution
import Handset.Script.Program

/-!
# Loading and calling methods

Methods are interpreted. A compiler counts the executions of each method and is asked for a compiled
form once the count reaches its threshold; it finds nothing to compile, so the method is interpreted
all the same, unless a compiler that always succeeds has been set.
-/
namespace Handset

/-- A method as it is called: an object, of which any part may be missing. -/
structure Callee where
  parts : Value
deriving Inhabited

def Callee.ofMethod (m : Dex.Method) : Callee :=
  ⟨.object [("class_name", .text m.className), ("name", .text m.name), ("code_off", .int m.codeOffset)]⟩

namespace Callee

def name (c : Callee) : Except Fault Value := c.parts.part "name"

def className (c : Callee) : Except Fault Value := c.parts.part "class_name"

def codeOffset (c : Callee) : Except Fault Value := c.parts.partOr "code_off" (.int 0)

/-- The name under which the compiler knows the method: class and name with a dot between. -/
def id (c : Callee) : Except Fault String := do
  let className ← (← c.className).written
  let name ← (← c.name).written
  pure s!"{className}.{name}"

end Callee

def generatedText (id : String) (registersSize : String) : String :=
  s!"\ndef compiled_{id}(vm, method, class_def, dex_parser):\n    logger.info(f\"执行编译后的方法: \x7bmethod['name']\x7d\")\n    registers = [None] * {registersSize}\n\n    # 方法体编译结果\n    # 这里是简化实现，实际需要根据字节码生成对应的Python代码\n\n    # 示例: 模拟执行一些指令\n    logger.info(\"执行编译后的代码...\")\n\n    # 返回结果\n    return None\n"

namespace Act

open Step

def codeAt? (image : Dex.Image) (offset : Key) : Option Dex.CodeItem :=
  match offset with
  | .int i => if i < 0 then none else Table.find? image.code i.toNat
  | _ => none

def interpret (pools : Pools) (code? : Key → Option Dex.CodeItem) (c : Callee) : Act Unit := do
  let offset ← lift c.codeOffset
  if offset.same (.int 0) then
    let name ← lift (c.name >>= Value.written)
    report .warning s!"方法 {name} 没有代码"
  else match code? (← lift offset.key) with
    | none =>
      let name ← lift (c.name >>= Value.written)
      report .warning s!"无法获取方法 {name} 的代码"
    | some code =>
      modify fun m =>
        { m with
          registers := Array.replicate code.registersSize .none
          registersReady := true
          registersInstead := none
          pc := 0
          pending := .none }
      let id ← lift c.id
      report .info s!"开始解释执行方法: {id}"
      execute pools code

/-- Counts an execution; should the method be compiled now? -/
def shouldCompile (c : Callee) : Act Bool := do
  let id ← lift c.id
  let m ← get
  match Table.find? m.jit.cache id with
  | none =>
    set { m with jit := { m.jit with cache := Table.put m.jit.cache id ⟨1, none⟩ } }
    pure false
  | some e =>
    let e := { e with executions := e.executions + 1 }
    set { m with jit := { m.jit with cache := Table.put m.jit.cache id e } }
    let often ← lift (Value.compare .ge (.int e.executions) m.jit.threshold)
    pure (often && e.compiled.isNone)

def setCompiled (c : Callee) (form : Compiled) : Act Unit := do
  let id ← lift c.id
  modify fun m =>
    { m with jit := { m.jit with cache := Table.put m.jit.cache id ⟨1, some form⟩ } }

/-- Compiles a method whose code was found if there is a size of its registers. There is a compiled
form only from a compiler that always succeeds: what is generated from code never defines a function
of the name that is looked for, since that name has a dot in it. -/
def compile (c : Callee) (registersSize : Option Value) : Act (Option Compiled) := do
  match (← get).jit.stand with
  | some form =>
    setCompiled c form
    pure (some form)
  | none =>
    let id ← lift c.id
    let name ← lift (c.name >>= Value.written)
    report .info s!"JIT编译方法: {name} (ID: {id})"
    if (← lift c.codeOffset).same (.int 0) then
      report .warning s!"方法 {name} 没有代码可编译"
      pure none
    else match registersSize with
      | some size =>
        let text := generatedText id (← lift size.written)
        let program ← lift (Script.Program.read ["vm", "registers", "logger"] text)
        let _ ← withMemory fun memory => Value.mul (.list [.none]) size memory
        lift program.run
        pure none
      | none =>
        report .warning s!"无法解析方法 {name} 的代码"
        pure none

def runCompiled (c : Callee) : Act Unit := do
  let id ← lift c.id
  let m ← get
  match (Table.find? m.jit.cache id).bind (·.compiled) with
  | some form =>
    let name ← lift c.name
    let shown ← lift name.written
    report .info s!"执行JIT编译的方法: {shown}"
    if form.fails then throw .missingKey
    else modify fun m => { m with jit := { m.jit with ran := m.jit.ran.push name } }
  | none =>
    let name ← lift (c.name >>= Value.written)
    report .warning s!"未找到已编译的方法: {name}"

def call (pools : Pools) (code? : Key → Option Dex.CodeItem) (c : Callee) : Act Unit := do
  if ← shouldCompile c then
    match ← compile c none with
    | some _ => runCompiled c
    | none => interpret pools code? c
  else interpret pools code? c

def readImage (d : Bytes) : Act (Dex.Partial Dex.Image) := do
  let p := Dex.parse d
  let record := Dex.parseRecord p
  report record.level record.text
  pure p

/-- The names that the instructions of an image refer to. The image's strings are not among them:
a text constant is never found. -/
def poolsOf (image : Dex.Image) : Pools :=
  { types := image.types.map .text }

def callIn (image : Dex.Image) (c : Callee) : Act Unit :=
  call (poolsOf image) (codeAt? image) c

def loadClasses : List Dex.ClassDef → Act Unit
  | [] => pure ()
  | c :: rest => do
    modify fun m => { m with classes := Table.put m.classes c.className c }
    report .debug s!"加载类: {c.className}"
    loadClasses rest

def loadImage (d : Bytes) : Act Bool := do
  match ← readImage d with
  | (_, some _) => pure false
  | (image, none) =>
    loadClasses image.classes.toList
    pure true

def runMain (d : Bytes) : Act Unit := do
  match ← readImage d with
  | (_, some _) => report .error "无法解析DEX文件"
  | (image, none) =>
    match image.mainMethod? with
    | none => report .warning "未找到main方法"
    | some method =>
      report .info s!"准备执行main方法: {method.className}.{method.name}"
      match image.classNamed? method.className with
      | none => report .error s!"找不到主类定义: {method.className}"
      | some _ => callIn image (.ofMethod method)

def registerNative (name : Value) : Act Unit := do
  let key ← lift name.key
  modify fun m => if m.natives.has key then m else { m with natives := Table.put m.natives key name }
  let shown ← lift name.written
  report .info s!"注册本地方法: {shown}"

end Act

end Handset
