import Handset.Step
import Handset.Value

/-!
# Drawing and rendering

Drawables that draw on a canvas, and the renderer that shows the picture of an application package.
-/
namespace Handset.Graphics

structure RectangleCall where
  left : Int
  top : Int
  right : Int
  bottom : Int
  color : Value
deriving Inhabited

/-- What can be drawn: nothing in particular, or a rectangle of one colour. -/
inductive Drawable where
  | plain
  | filled (color : Value)
deriving Inhabited

namespace Drawable

def bounds : Int × Int × Int × Int := (0, 0, 100, 100)

/-- Draws inside the bounds: the calls to the canvas and the records of the log. -/
def draw (d : Drawable) (bounds? : Option (Int × Int × Int × Int)) : List RectangleCall × Log :=
  match d with
  | plain => ([], #[⟨.info, "Drawable.draw 方法被调用，但具体绘制逻辑由子类实现"⟩])
  | filled color =>
    match bounds? with
    | some (left, top, right, bottom) => ([{ left, top, right, bottom, color }], #[])
    | none => ([], #[⟨.warning, "未获取到有效的边界信息，无法绘制 ColorDrawable"⟩])

end Drawable

inductive Picture where
  | unnamed
  | missing
  | unreadable
  | image (width height : Nat)
deriving DecidableEq, Inhabited

namespace Picture

def render (p : Picture) : Option (Nat × Nat) × Log :=
  let failed (fault : Fault) : Option (Nat × Nat) × Log :=
    let reason := fault.message
    (none, #[⟨.error, s!"图形渲染失败: {reason}"⟩])
  match p with
  | unnamed => (none, #[⟨.warning, "未在 APK 中找到图形资源"⟩])
  | missing => failed .fileNotFound
  | unreadable => failed .badPicture
  | image width height => (some (width, height), #[⟨.info, "正在显示图形资源"⟩])

end Picture

end Handset.Graphics
