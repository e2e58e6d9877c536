import SchemaGen.Code.Shape
/-!
The records of the built-in types, with the conversions that two of them have.
-/
namespace SchemaGen.Code

def timestampConversions : String :=
  unlines [
    "",
    "impl Timestamp \x7b",
    "    /// Converts a native instant into its wire form.",
    "    pub fn from_system_time(time: ::std::time::SystemTime) -> Self \x7b",
    "        match time.duration_since(::std::time::UNIX_EPOCH) \x7b",
    "            ::core::result::Result::Ok(since) => Timestamp \x7b",
    "                seconds: ::core::cmp::min(since.as_secs(), i64::MAX as u64) as i64,",
    "                nanos: since.subsec_nanos() as i32,",
    "            \x7d,",
    "            ::core::result::Result::Err(err) => \x7b",
    "                let before = err.duration();",
    "                let mut seconds = -(::core::cmp::min(before.as_secs(), i64::MAX as u64) as i64);",
    "                let mut nanos = -(before.subsec_nanos() as i32);",
    "                if nanos < 0 \x7b",
    "                    seconds -= 1;",
    "                    nanos += 1_000_000_000;",
    "                \x7d",
    "                Timestamp \x7b seconds, nanos \x7d",
    "            \x7d",
    "        \x7d",
    "    \x7d",
    "",
    "    /// `None` when `nanos` is outside `0..1_000_000_000` or the instant does",
    "    /// not fit the native type.",
    "    pub fn to_system_time(&self) -> ::core::option::Option<::std::time::SystemTime> \x7b",
    "        if !(0..1_000_000_000).contains(&self.nanos) \x7b",
    "            return ::core::option::Option::None;",
    "        \x7d",
    "        let nanos = ::std::time::Duration::new(0, self.nanos as u32);",
    "        let whole = ::std::time::Duration::from_secs(self.seconds.unsigned_abs());",
    "        let base = if self.seconds >= 0 \x7b",
    "            ::std::time::UNIX_EPOCH.checked_add(whole)?",
    "        \x7d else \x7b",
    "            ::std::time::UNIX_EPOCH.checked_sub(whole)?",
    "        \x7d;",
    "        base.checked_add(nanos)",
    "    \x7d",
    "\x7d",
    "",
    "impl ::core::convert::From<::std::time::SystemTime> for Timestamp \x7b",
    "    fn from(time: ::std::time::SystemTime) -> Self \x7b",
    "        Self::from_system_time(time)",
    "    \x7d",
    "\x7d"]

def durationConversions : String :=
  unlines [
    "",
    "impl Duration \x7b",
    "    /// Converts a native span into its wire form. Spans past `i64::MAX`",
    "    /// seconds saturate.",
    "    pub fn from_std(span: ::std::time::Duration) -> Self \x7b",
    "        Duration \x7b",
    "            seconds: ::core::cmp::min(span.as_secs(), i64::MAX as u64) as i64,",
    "            nanos: span.subsec_nanos() as i32,",
    "        \x7d",
    "    \x7d",
    "",
    "    /// `None` for negative or malformed spans, which the native type cannot hold.",
    "    pub fn to_std(&self) -> ::core::option::Option<::std::time::Duration> \x7b",
    "        if self.seconds < 0 || !(0..1_000_000_000).contains(&self.nanos) \x7b",
    "            return ::core::option::Option::None;",
    "        \x7d",
    "        ::core::option::Option::Some(::std::time::Duration::new(self.seconds as u64, self.nanos as u32))",
    "    \x7d",
    "\x7d",
    "",
    "impl ::core::convert::From<::std::time::Duration> for Duration \x7b",
    "    fn from(span: ::std::time::Duration) -> Self \x7b",
    "        Self::from_std(span)",
    "    \x7d",
    "\x7d"]

def builtInMember (p : WellKnown.Part) : Member where
  deprecated := false
  encoding :=
    match p.label with
    | .repeated => .repeated (scalarKind p.kind) false p.number
    | .singular => .single (scalarKind p.kind) false p.number
  name := p.name
  type :=
    match p.label with
    | .repeated => vectorOf (scalarType p.kind)
    | .singular => scalarType p.kind

def builtInRecord (t : WellKnown) : Declaration :=
  .record t.simpleName (t.parts.map builtInMember)

/-- The text of a built-in type. The empty type needs none. -/
def builtInText? (t : WellKnown) : Option String :=
  if t.isComposite then
    some ((builtInRecord t).render ++
      match t with
      | .timestamp => timestampConversions
      | .duration => durationConversions
      | _ => "")
  else none

end SchemaGen.Code
