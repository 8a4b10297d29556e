import PageRouting.Run

/-! Routes: addresses to handlers and back. -/
namespace PageRouting

/-- A two-way mapping. Where an address or a handler does not belong to a route, it answers nothing
and leaves it to others. -/
structure Route (W : Type) where
  /-- How well the route fits an address; those that fit better are asked first. -/
  score : Url → Run W Int
  dispatch : Url → Run W (Option Handler)
  link : Handler → Run W (Option Url)

end PageRouting
