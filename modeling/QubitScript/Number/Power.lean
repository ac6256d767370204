/-!
# Powers

A power can be found as that of the core library or as one of a monoid. Here it is the former, also
in modules that know about monoids, so that a power is the same term everywhere.
-/

attribute [instance (10000), default_instance (10000)] instPowNat
