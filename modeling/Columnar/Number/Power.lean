/-!
# Powers of numbers

Where numbers are also known as monoids, `2 ^ n` can be read as a power in a monoid.
Here it always is the power of the core library, so that a bound on a number is the
same bound wherever it is stated.
-/

attribute [instance (high), default_instance (high + 1)] instPowNat
